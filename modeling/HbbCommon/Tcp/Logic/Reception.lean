import HbbCommon.Tcp.Reception
import HbbCommon.Tcp.Logic.SecureChannel

/-!
# What an adversary can make a reader return

In the directional mode every frame is opened, and the nonce names the direction and the
number of the message. A frame that opens was sealed under that nonce; the reader's own
messages carry the other direction, so it is the peer's message of that number. Hence a
reader returns the peer's messages in order until its first error, whatever the network
delivers. The numbers are taken modulo `2 ^ 64`.
-/

namespace HbbCommon.Tcp

open HbbCommon.Base
open HbbCommon.Transport (Bytes)

variable {box : Secretbox} {key : Key} {role : SessionRole}

/-! ## One frame -/

/-- Opening a frame leaves the counter of the other direction. -/
theorem Encrypt.sendCounter_dec (k : Encrypt) (bytes : Bytes) :
    (k.dec box bytes).1.sendCounter = k.sendCounter := by
  unfold dec
  split
  · rfl
  · split
    · rfl
    · dsimp only
      split <;> rfl

/-- In the directional mode a frame that is long enough is opened, and its number is
used up. -/
theorem Encrypt.dec_directional (box : Secretbox) {k : Encrypt} (hmode : k.mode = .directional role)
    (bytes : Bytes) :
    (∃ error, k.dec box bytes = (k, .error error)) ∨
      k.dec box bytes = ({ k with recvSeqnum := k.recvSeqnum + 1 },
        match box.openBox bytes k.recvNonce k.key with
        | some message => .ok message
        | none => .error .decryption) := by
  unfold dec
  split
  · exact .inl ⟨_, rfl⟩
  · rename_i hlong
    have hmac : ¬ bytes.length < macBytes := by
      intro hshort
      exact hlong ⟨by rw [hmode]; exact NonceMode.noConfusion, hshort⟩
    have hopened : ¬ bytes.length ≤ 1 := by
      intro hshort
      exact hmac (lt_of_le_of_lt hshort (by decide))
    rw [if_neg hopened]
    refine .inr ?_
    simp only [recvNonce]
    cases box.openBox bytes (k.mode.nonce (k.recvSeqnum + 1) false) k.key <;> rfl

/-- The nonces of the two directions are those of the two senders. -/
theorem NonceMode.nonce_false (mode : NonceMode) (seqnum : UInt64) :
    mode.nonce seqnum false = mode.peer.nonce seqnum true := by
  rcases mode with _ | _ | _ <;> rfl

namespace Session

/-- What the two ends have sealed, and that `next` has returned what the peer sealed. -/
structure Inv (key : Key) (role : SessionRole) (s : Session) : Prop where
  peer : s.peer.sendCounter =
    (key, (NonceMode.directional role).peer, UInt64.ofNat s.peerSent.length)
  peerSealedWith : s.peerSealedWith = s.peerSent.mapIdx (fun n msg =>
    ((NonceMode.directional role).peer.nonce (UInt64.ofNat (n + 1)) true, msg))
  own : ∀ entry ∈ s.sealedWith, ∃ seqnum, entry.1 = (NonceMode.directional role).nonce seqnum true
  returned : s.peerSent.length < 2 ^ 64 → s.returned <+: s.peerSent

variable {s : Session}

theorem inv_new (key : Key) (role : SessionRole) : Inv key role (new key role) where
  peer := rfl
  peerSealedWith := rfl
  own := fun _ hentry => nomatch hentry
  returned := fun _ => List.nil_prefix

theorem Inv.peerSeals (box : Secretbox) (h : Inv key role s) (msg : Bytes) :
    Inv key role (s.peerSeals box msg) := by
  have henc := Encrypt.enc_eq box h.peer msg
  obtain ⟨hkey, hmode, -⟩ := by simpa only [Encrypt.sendCounter, Prod.mk.injEq] using h.peer
  simp only [Session.peerSeals, henc, hmode]
  refine ⟨?_, ?_, h.own, ?_⟩
  · simp only [Encrypt.sendCounter, hkey, List.length_append, List.length_singleton]
  · rw [List.mapIdx_concat, ← h.peerSealedWith]
  · intro hcount
    rw [List.length_append, List.length_singleton] at hcount
    exact (h.returned (by omega)).trans (List.prefix_append _ _)

theorem Inv.seals (h : Inv key role s) {k : Option Encrypt}
    (hk : ∀ e ∈ k, e.mode = .directional role) (msg : Bytes) : Inv key role (s.seals k msg) := by
  refine { h with own := ?_ }
  intro entry hentry
  obtain hentry | hentry := List.mem_append.mp hentry
  · exact h.own entry hentry
  · obtain ⟨e, he, rfl⟩ := Option.map_eq_some_iff.mp (Option.mem_toList.mp hentry)
    exact ⟨e.sendSeqnum, by rw [hk e he]⟩

theorem Inv.fails (h : Inv key role s) : Inv key role s.fails := { h with }

/-- A frame that opens under the next number is the peer's next message. -/
theorem Inv.returns (hbox : box.Lawful) (h : Inv key role s) {k : Encrypt} {bytes msg : Bytes}
    (hk : k.recvCounter = (key, .directional role, UInt64.ofNat s.returned.length))
    (hgenuine : Genuine box key s.log bytes k.recvNonce)
    (hopen : box.openBox bytes k.recvNonce key = some msg) : Inv key role (s.returns msg) := by
  obtain ⟨-, hmode, hseqnum⟩ := by simpa only [Encrypt.recvCounter, Prod.mk.injEq] using hk
  have hnonce : k.recvNonce = (NonceMode.directional role).peer.nonce
      (UInt64.ofNat (s.returned.length + 1)) true := by
    rw [Encrypt.recvNonce, hmode, hseqnum, UInt64.ofNat_succ, NonceMode.nonce_false]
  obtain ⟨⟨nonce, sent⟩, hentry, rfl, hbytes⟩ := hgenuine (by rw [hopen]; rfl)
  have hmsg : sent = msg := by
    have hopen' := (hbox.openBox_eq_some_iff bytes k.recvNonce key sent).mpr hbytes
    rw [hopen'] at hopen
    exact Option.some.inj hopen
  subst hmsg
  refine { h with returned := ?_ }
  intro hcount
  replace hcount : s.peerSent.length < 2 ^ 64 := hcount
  obtain hentry | hentry := List.mem_append.mp hentry
  · -- this end seals in the other direction
    obtain ⟨seqnum, hown⟩ := h.own _ hentry
    exact absurd (hown.symm.trans hnonce) (NonceMode.nonce_ne_peer _ _)
  · rw [h.peerSealedWith] at hentry
    obtain ⟨n, hn, hpair⟩ := List.mem_mapIdx.mp hentry
    obtain ⟨hnonce', hsent⟩ := Prod.mk.inj hpair
    have hnumber := congrArg UInt64.toNat (NonceMode.nonce_inj (hnonce'.trans hnonce))
    have hlength := (h.returned hcount).length_le
    rw [UInt64.toNat_ofNat', UInt64.toNat_ofNat', Nat.mod_eq_of_lt (by omega)] at hnumber
    have hlast : n = s.returned.length := by omega
    subst hlast
    rw [← hsent]
    exact List.concat_get_prefix (h.returned hcount) hn

/-- A session together with the counters of the two directions: what this end seals and
opens with. The reader counts what it returned. -/
structure Secured (key : Key) (role : SessionRole) (encrypt decrypt : Option Encrypt)
    (s : Session) : Prop where
  inv : s.Inv key role
  writer : ∃ seqnum, encrypt.map Encrypt.sendCounter = some (key, .directional role, seqnum)
  reader : ∃ seqnum, decrypt.map Encrypt.recvCounter = some (key, .directional role, seqnum) ∧
    (s.failed = false → seqnum = UInt64.ofNat s.returned.length)

namespace Secured

variable {encrypt encrypt' decrypt decrypt' : Option Encrypt}

theorem new (key : Key) (role : SessionRole) :
    Secured key role (some (.withMode key (.directional role)))
      (some (.withMode key (.directional role))) (.new key role) where
  inv := inv_new key role
  writer := ⟨_, rfl⟩
  reader := ⟨_, rfl, fun _ => rfl⟩

theorem peerSeals (box : Secretbox) (h : Secured key role encrypt decrypt s) (msg : Bytes) :
    Secured key role encrypt decrypt (s.peerSeals box msg) :=
  ⟨h.inv.peerSeals box msg, h.writer, h.reader⟩

theorem sends (h : Secured key role encrypt decrypt s) {msg : Bytes}
    (hsend : ∀ k, encrypt = some k → encrypt' = some (k.enc box msg).1 ∧
      decrypt'.map Encrypt.recvCounter = decrypt.map Encrypt.recvCounter) :
    Secured key role encrypt' decrypt' (s.seals encrypt' msg) := by
  obtain ⟨seqnum, hwriter⟩ := h.writer
  obtain ⟨k, hk, hcounter⟩ := Option.map_eq_some_iff.mp hwriter
  obtain ⟨hkey, hmode, -⟩ := by simpa only [Encrypt.sendCounter, Prod.mk.injEq] using hcounter
  obtain ⟨rfl, hdecrypt⟩ := hsend k hk
  refine ⟨h.inv.seals ?_ msg, ⟨k.sendSeqnum + 1, ?_⟩, ?_⟩
  · rintro e ⟨⟩
    exact hmode
  · rw [← hkey, ← hmode]
    rfl
  · rw [hdecrypt]
    exact h.reader

/-- Nothing is opened or sealed. -/
theorem keeps (h : Secured key role encrypt decrypt s)
    (hencrypt : encrypt'.map Encrypt.sendCounter = encrypt.map Encrypt.sendCounter)
    (hdecrypt : decrypt' = decrypt) : Secured key role encrypt' decrypt' s :=
  ⟨h.inv, by rw [hencrypt]; exact h.writer, by rw [hdecrypt]; exact h.reader⟩

theorem fails (h : Secured key role encrypt decrypt s) : Secured key role encrypt decrypt s.fails :=
  ⟨h.inv.fails, h.writer, by
    obtain ⟨seqnum, hreader, -⟩ := h.reader
    exact ⟨seqnum, hreader, nofun⟩⟩

/-- What `dec` makes of a genuine frame: the peer's next message, or an error. -/
theorem opens (hbox : box.Lawful) (h : Secured key role encrypt decrypt s) {k : Encrypt}
    {bytes : Bytes} (hk : decrypt = some k) (hopen : s.failed = false)
    (hgenuine : Genuine box key s.log bytes k.recvNonce)
    (hencrypt : encrypt'.map Encrypt.sendCounter = encrypt.map Encrypt.sendCounter) :
    Secured key role encrypt' (some (k.dec box bytes).1)
      (match (k.dec box bytes).2 with
        | .ok msg => s.returns msg
        | .error _ => s.fails) := by
  obtain ⟨seqnum, hreader, hseqnum⟩ := h.reader
  have hwriter : ∃ seqnum, encrypt'.map Encrypt.sendCounter =
      some (key, .directional role, seqnum) := by
    rw [hencrypt]
    exact h.writer
  rw [hk, Option.map_some, hseqnum hopen, Option.some.injEq] at hreader
  obtain ⟨hkey, hmode, hnumber⟩ := by simpa only [Encrypt.recvCounter, Prod.mk.injEq] using hreader
  obtain ⟨error, hdec⟩ | hdec := Encrypt.dec_directional box hmode bytes
  · rw [hdec]
    exact ⟨h.inv.fails, hwriter, _, congrArg some hreader, Bool.noConfusion⟩
  · have hcounter : { k with recvSeqnum := k.recvSeqnum + 1 }.recvCounter =
        (key, .directional role, UInt64.ofNat (s.returned.length + 1)) := by
      simp only [Encrypt.recvCounter, hkey, hmode, hnumber, UInt64.ofNat_succ]
    rw [hdec]
    cases hbytes : box.openBox bytes k.recvNonce k.key with
    | none => exact ⟨h.inv.fails, hwriter, _, congrArg some hcounter, Bool.noConfusion⟩
    | some msg =>
        rw [hkey] at hbytes
        refine ⟨h.inv.returns hbox hreader hgenuine hbytes, hwriter, _, congrArg some hcounter, ?_⟩
        intro _
        simp only [Session.returns, List.length_append, List.length_singleton]

end Secured

end Session

/-! ## The byte stream -/

/-- A round of `next` that finds no frame returns nothing. -/
theorem FramedReadHalf.next_of_no_frame (box : Secretbox) {r : FramedReadHalf} {eof : Bool}
    (hframe : r.nextFrame eof = none) :
    ∃ r' result, r.next box eof = (r', result) ∧ r'.decrypt = r.decrypt ∧
      ∀ bytes, result ≠ .item bytes := by
  unfold nextFrame at hframe
  unfold FramedReadHalf.next
  split at hframe
  · rename_i codec readBuf frame heq
    subst hframe
    rw [heq]
    refine ⟨_, _, rfl, rfl, ?_⟩
    cases eof <;> exact fun _ => Next.noConfusion
  · rename_i codec readBuf error heq
    rw [heq]
    exact ⟨_, _, rfl, rfl, fun _ => Next.noConfusion⟩

/-- A round of `next` that finds a frame returns what `dec` makes of it. -/
theorem FramedReadHalf.next_of_frame (box : Secretbox) {r : FramedReadHalf} {eof : Bool}
    {bytes : Bytes} {k : Encrypt} (hframe : r.nextFrame eof = some bytes)
    (hk : r.decrypt = some k) :
    ∃ r', r'.decrypt = some (k.dec box bytes).1 ∧
      r.next box eof = (r', match (k.dec box bytes).2 with
        | .ok msg => .item msg
        | .error error => .failed (.decrypt error)) := by
  unfold nextFrame at hframe
  unfold FramedReadHalf.next
  split at hframe
  · rename_i codec readBuf frame heq
    subst hframe
    simp only [heq, hk]
    obtain ⟨k', result⟩ := k.dec box bytes
    cases result with
    | ok msg => exact ⟨_, rfl, rfl⟩
    | error error => exact ⟨_, rfl, rfl⟩
  · cases hframe

theorem FramedStream.sendBytes_encrypt (stream : FramedStream) (bytes : Bytes) :
    (stream.sendBytes bytes).1.encrypt = stream.encrypt := by
  unfold FramedStream.sendBytes
  split
  · rfl
  · split <;> rfl

theorem FramedWriteHalf.sendBytes_encrypt (w : FramedWriteHalf) (bytes : Bytes) :
    (w.sendBytes bytes).1.encrypt = w.encrypt := by
  unfold FramedWriteHalf.sendBytes
  split <;> rfl

/-- A send call counts one message more, and leaves what the reader counts. -/
theorem Endpoint.sendRaw_counters {p : Endpoint} {k : Encrypt} (hk : p.encrypt = some k)
    (msg : Bytes) :
    (p.sendRaw box msg).1.encrypt = some (k.enc box msg).1 ∧
      (p.sendRaw box msg).1.reader.decrypt.map Encrypt.recvCounter =
        p.reader.decrypt.map Encrypt.recvCounter := by
  cases p with
  | joined stream =>
      have hstream : stream.encrypt = some k := hk
      have hkept := FramedStream.sendBytes_encrypt
        { stream with encrypt := some (k.enc box msg).1 } (k.enc box msg).2
      have hsent : (Endpoint.sendRaw box msg (.joined stream)).1 =
          .joined ({ stream with encrypt := some (k.enc box msg).1 }.sendBytes
            (k.enc box msg).2).1 := by
        simp only [Endpoint.sendRaw, FramedStream.sendRaw, hstream]
        generalize FramedStream.sendBytes _ _ = result
        obtain ⟨stream', _ | _⟩ := result <;> rfl
      rw [hsent]
      refine ⟨hkept, ?_⟩
      show Option.map _ (FramedStream.sendBytes _ _).1.encrypt = Option.map _ stream.encrypt
      rw [hkept, hstream]
      rfl
  | split read write =>
      have hwrite : write.encrypt = some k := hk
      refine ⟨?_, ?_⟩
      · simp only [Endpoint.sendRaw, FramedWriteHalf.sendRaw, hwrite, Endpoint.encrypt]
        exact FramedWriteHalf.sendBytes_encrypt _ _
      · simp only [Endpoint.sendRaw, Endpoint.reader]

theorem Endpoint.read_counters (p : Endpoint) (bytes : Bytes) :
    (p.read bytes).encrypt = p.encrypt ∧ (p.read bytes).reader.decrypt = p.reader.decrypt := by
  cases p <;> exact ⟨rfl, rfl⟩

namespace Reception

def Inv (key : Key) (role : SessionRole) (s : Reception) : Prop :=
  s.session.Secured key role s.endpoint.encrypt s.endpoint.reader.decrypt

variable {s s' : Reception} {stream : FramedStream}

/-- A round of `next` on a frame that is genuine returns the peer's next message, or
fails. -/
theorem Inv.next (hbox : box.Lawful) (h : Inv key role s) {eof : Bool}
    (hopen : s.session.failed = false) (hgenuine : Unforged box key s (.next eof)) :
    Inv key role (s.next box eof) := by
  cases hframe : s.endpoint.reader.nextFrame eof with
  | none =>
      obtain ⟨r, result, hnext, hdecrypt, hitem⟩ :=
        FramedReadHalf.next_of_no_frame box hframe
      obtain ⟨p, hp, rfl, -, -, -, hwriter⟩ := s.endpoint.next_spec hnext
      have hkept : s.session.Secured key role p.encrypt p.reader.decrypt :=
        h.keeps (hwriter (by rw [hdecrypt])) hdecrypt
      simp only [Reception.next, hp]
      cases result with
      | item bytes => exact absurd rfl (hitem bytes)
      | failed error => exact hkept.fails
      | pending => exact hkept
      | ended => exact hkept
  | some bytes =>
      obtain ⟨seqnum, hreader, -⟩ := h.reader
      obtain ⟨k, hk, -⟩ := Option.map_eq_some_iff.mp hreader
      obtain ⟨r, hdecrypt, hnext⟩ := FramedReadHalf.next_of_frame box hframe hk
      obtain ⟨p, hp, rfl, -, -, -, hwriter⟩ := s.endpoint.next_spec hnext
      have hopened := h.opens hbox hk hopen
        (hgenuine bytes (by rw [hframe]; rfl) k (by rw [hk]; rfl))
        (hwriter (by rw [hdecrypt, hk, Option.map_some, Option.map_some, Encrypt.sendCounter_dec]))
      rw [← hdecrypt] at hopened
      simp only [Reception.next, hp]
      revert hopened
      cases (k.dec box bytes).2 <;> exact id

theorem Inv.step (hbox : box.Lawful) (h : Inv key role s) {a : ReceptionAction}
    (hgenuine : Unforged box key s a) (hstep : step box s a = some s') : Inv key role s' := by
  cases a with
  | peerSeals msg =>
      cases hstep
      exact h.peerSeals box msg
  | sendRaw msg =>
      simp only [Reception.step, Option.some.injEq] at hstep
      subst hstep
      exact h.sends (fun k hk => Endpoint.sendRaw_counters hk msg)
  | deliver bytes =>
      cases hstep
      obtain ⟨hencrypt, hdecrypt⟩ := s.endpoint.read_counters bytes
      exact h.keeps (by rw [hencrypt]) hdecrypt
  | next eof =>
      simp only [Reception.step] at hstep
      split at hstep
      · cases hstep
      · rename_i hopen
        cases hstep
        exact h.next hbox (Bool.eq_false_of_not_eq_true hopen) hgenuine
  | intoSplit =>
      simp only [Reception.step] at hstep
      split at hstep
      · rename_i stream hjoined
        cases hstep
        unfold Inv at h ⊢
        rwa [hjoined] at h
      · cases hstep

theorem reach_inv (hbox : box.Lawful)
    (hreach : (system box stream key role).Reach (Unforged box key) s) : Inv key role s :=
  hreach.invariant (Session.Secured.new key role)
    (fun _ _ _ h hgenuine hstep => h.step hbox hgenuine hstep)

/-- For every run against a network that cannot forge a box: the messages that `next`
returned before its first error are the first messages that the peer sealed, as long as the
peer's counter has not wrapped. -/
theorem returned_prefix (box : Secretbox) (hbox : box.Lawful) (stream : FramedStream) (key : Key)
    (role : SessionRole) {s : Reception}
    (hreach : (system box stream key role).Reach (Unforged box key) s)
    (hcount : s.session.peerSent.length < 2 ^ 64) :
    s.session.returned <+: s.session.peerSent := by
  exact (reach_inv hbox hreach).inv.returned hcount

open Channel (sampleBox sampleBox_lawful sampleKey)

/-- A frame under the nonce of the host's first message. -/
def sampleFrame (msg : Bytes) : Bytes :=
  BytesCodec.frame (sampleBox.sealBox msg ((NonceMode.directional .host).nonce 1 true) sampleKey)

/-- The peer's first message, cut by a split, then the first message again. -/
def sampleAttack : List ReceptionAction :=
  [.sendRaw [5], .peerSeals [1, 2, 3], .peerSeals [4], .deliver ((sampleFrame [1, 2, 3]).take 9),
    .next false, .intoSplit, .deliver ((sampleFrame [1, 2, 3]).drop 9), .next false,
    .deliver (sampleFrame [1, 2, 3]), .next false]

theorem returned_prefix_replay :
    ∃ s, (system sampleBox .new sampleKey .viewer).run sampleAttack = some s ∧
      s.session.failed = true ∧ s.session.returned = [[1, 2, 3]] ∧
      s.session.returned <+: s.session.peerSent := by
  have hrun : ((system sampleBox .new sampleKey .viewer).run sampleAttack).map (fun s =>
      decide (s.session.failed = true ∧ s.session.returned = [[1, 2, 3]] ∧
        s.session.peerSent.length < 2 ^ 64)) = some true := by
    decide +kernel
  obtain ⟨s, hs, hstate⟩ := Option.map_eq_some_iff.mp hrun
  obtain ⟨hfailed, hreturned, hcount⟩ := of_decide_eq_true hstate
  have hreach := TSys.reach_of_run (G := Unforged sampleBox sampleKey) sampleAttack
    (by decide +kernel) hs
  exact ⟨s, hs, hfailed, hreturned,
    returned_prefix sampleBox sampleBox_lawful .new sampleKey .viewer hreach hcount⟩

/-- The peer may seal any messages before the first is read. -/
theorem reach_peerSeals (box : Secretbox) (stream : FramedStream) (key : Key) (role : SessionRole)
    (msgs : List Bytes) :
    ∃ s, (system box stream key role).Reach (Unforged box key) s ∧
      s.endpoint = (system box stream key role).init.endpoint ∧ s.session.peerSent = msgs ∧
      s.session.returned = [] ∧ s.session.failed = false := by
  induction msgs using List.reverseRecOn with
  | nil => exact ⟨_, .init, rfl, rfl, rfl, rfl⟩
  | append_singleton msgs msg ih =>
      obtain ⟨s, hreach, hendpoint, hsent, hreturned, hfailed⟩ := ih
      refine ⟨_, hreach.step (a := ReceptionAction.peerSeals msg) trivial rfl, hendpoint, ?_,
        hreturned, hfailed⟩
      simp only [Session.peerSeals, hsent]

/-- When the peer has sealed `2 ^ 64 + 1` messages, the last one has the number of the
first, and is returned in its place. -/
theorem returned_not_prefix_of_wrap :
    ¬ ∀ s, (system sampleBox .new sampleKey .viewer).Reach (Unforged sampleBox sampleKey) s →
      s.session.returned <+: s.session.peerSent := by
  intro hall
  obtain ⟨s, hreach, hendpoint, hsent, hreturned, hfailed⟩ := reach_peerSeals sampleBox .new
    sampleKey .viewer (([0] :: List.replicate (2 ^ 64 - 1) [0]) ++ [[1]])
  have hinv : s.session.Inv sampleKey .viewer := (reach_inv sampleBox_lawful hreach).inv
  have hreach' := hreach.step (a := ReceptionAction.deliver (sampleFrame [1])) trivial rfl
  have hnumber : UInt64.ofNat (2 ^ 64 - 1 + 1 + 1) = 1 := by decide
  have hentry : ((NonceMode.directional .host).nonce 1 true, [1]) ∈ s.session.log := by
    refine List.mem_append_right _ ?_
    rw [hinv.peerSealedWith, hsent, List.mapIdx_concat, List.length_cons, List.length_replicate,
      hnumber]
    exact List.mem_append_right _ (List.mem_singleton_self _)
  have hnext : (s.endpoint.read (sampleFrame [1])).reader.nextFrame false =
      some (sampleBox.sealBox [1] ((NonceMode.directional .host).nonce 1 true) sampleKey) := by
    rw [hendpoint]
    decide +kernel
  have hread : (Endpoint.next sampleBox false (s.endpoint.read (sampleFrame [1]))).2 =
      .item [1] := by
    rw [hendpoint]
    decide +kernel
  have hgenuine : Unforged sampleBox sampleKey
      { s with endpoint := s.endpoint.read (sampleFrame [1]) } (.next false) := by
    intro bytes hbytes k hk _
    rw [hnext] at hbytes
    cases hbytes
    rw [hendpoint] at hk
    cases hk
    exact ⟨_, hentry, rfl, rfl⟩
  have hlast := hall _ (hreach'.step hgenuine (if_neg (by rw [hfailed]; decide)))
  simp only [Reception.next, hread, Session.returns, hreturned, hsent, List.nil_append,
    List.cons_append, List.cons_prefix_cons] at hlast
  exact absurd hlast.1 (by decide)

end Reception

end HbbCommon.Tcp
