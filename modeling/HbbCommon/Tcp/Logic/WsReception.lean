import HbbCommon.Tcp.WebSocket
import HbbCommon.Tcp.Logic.Reception

/-!
# What an adversary can make a WebSocket reader return

Binary messages are opened as frames of a byte stream are, so what they return is what the
peer sealed. A text message is returned as it is: nothing of it was sealed.
-/

namespace HbbCommon.Tcp

open HbbCommon.Base
open HbbCommon.Transport (Bytes)

variable {box : Secretbox} {key : Key} {role : SessionRole}

open WsReception in
/-- Without a text message, `next` opens the binary message that it ends with, or returns
nothing. -/
theorem wsNext_cases (box : Secretbox) (k : Encrypt) {events : List WsEvent}
    (htext : (decisive events).any isText = false) :
    (∃ rest result, wsNext box (some k) events = (some k, rest, result) ∧
      ∀ bytes, result ≠ .item bytes) ∨
    ∃ data rest, (decisive events).bind binaryData = some data ∧
      wsNext box (some k) events = (some (k.dec box data).1, rest,
        match (k.dec box data).2 with
        | .ok msg => .item msg
        | .error error => .decryptError error) := by
  induction events with
  | nil => exact .inl ⟨_, _, rfl, fun _ => WsNext.noConfusion⟩
  | cons event events ih =>
      cases event with
      | error => exact .inl ⟨_, _, rfl, fun _ => WsNext.noConfusion⟩
      | ended => exact .inl ⟨_, _, rfl, fun _ => WsNext.noConfusion⟩
      | message msg =>
          cases msg with
          | text text => cases htext
          | close => exact .inl ⟨_, _, rfl, fun _ => WsNext.noConfusion⟩
          | ping data => exact ih htext
          | pong data => exact ih htext
          | binary data =>
              refine .inr ⟨data, events, rfl, ?_⟩
              rw [wsNext]
              obtain ⟨k', result⟩ := k.dec box data
              cases result <;> rfl

namespace WsEndpoint

theorem sendRaw_counters {p : WsEndpoint} {k : Encrypt} (hk : p.encrypt = some k) (msg : Bytes) :
    (p.sendRaw box msg).1.encrypt = some (k.enc box msg).1 ∧
      (p.sendRaw box msg).1.decrypt.map Encrypt.recvCounter =
        p.decrypt.map Encrypt.recvCounter := by
  cases p with
  | joined stream =>
      have hstream : stream.encrypt = some k := hk
      simp only [sendRaw, WsFramedStream.sendRaw, encrypt, decrypt, hstream]
      exact ⟨trivial, rfl⟩
  | split read write =>
      have hwrite : write.encrypt = some k := hk
      simp only [sendRaw, WsWriteHalf.sendRaw, encrypt, decrypt, hwrite, and_self]

/-- An endpoint reads with the key of its reader, and keeps the rest. -/
theorem next_spec (p : WsEndpoint) {events rest : List WsEvent} {decrypt : Option Encrypt}
    {result : WsNext} (hnext : wsNext box p.decrypt events = (decrypt, rest, result)) :
    ∃ p', p.next box events = (p', rest, result) ∧ p'.decrypt = decrypt ∧
      (decrypt.map Encrypt.sendCounter = p.decrypt.map Encrypt.sendCounter →
        p'.encrypt.map Encrypt.sendCounter = p.encrypt.map Encrypt.sendCounter) := by
  cases p with
  | joined stream =>
      refine ⟨.joined { encrypt := decrypt }, ?_, rfl, id⟩
      rw [WsEndpoint.decrypt] at hnext
      simp only [next, WsFramedStream.next, hnext]
  | split read write =>
      refine ⟨.split { decrypt := decrypt } write, ?_, rfl, fun _ => rfl⟩
      rw [WsEndpoint.decrypt] at hnext
      simp only [next, WsReadHalf.next, hnext]

end WsEndpoint

namespace WsReception

def Inv (key : Key) (role : SessionRole) (s : WsReception) : Prop :=
  s.session.Secured key role s.endpoint.encrypt s.endpoint.decrypt

variable {s s' : WsReception}

theorem Inv.next (hbox : box.Lawful) (h : Inv key role s) (hopen : s.session.failed = false)
    (hgenuine : Unforged box key s .next) (htext : NoText s .next) :
    Inv key role (s.next box) := by
  obtain ⟨seqnum, hreader, -⟩ := h.reader
  obtain ⟨k, hk, -⟩ := Option.map_eq_some_iff.mp hreader
  obtain ⟨rest, result, hnext, hitem⟩ | ⟨data, rest, hdata, hnext⟩ :=
    wsNext_cases box k htext
  · rw [← hk] at hnext
    obtain ⟨p, hp, hdecrypt, hwriter⟩ := s.endpoint.next_spec hnext
    have hkept : s.session.Secured key role p.encrypt p.decrypt := h.keeps (hwriter rfl) hdecrypt
    simp only [WsReception.next, hp]
    cases result with
    | item bytes => exact absurd rfl (hitem bytes)
    | protocolError => exact hkept.fails
    | decryptError error => exact hkept.fails
    | pending => exact hkept
    | ended => exact hkept
  · rw [← hk] at hnext
    obtain ⟨p, hp, hdecrypt, hwriter⟩ := s.endpoint.next_spec hnext
    have hopened := h.opens hbox hk hopen
      (hgenuine data (by rw [hdata]; rfl) k (by rw [hk]; rfl))
      (hwriter (by rw [hk, Option.map_some, Option.map_some, Encrypt.sendCounter_dec]))
    rw [← hdecrypt] at hopened
    simp only [WsReception.next, hp]
    revert hopened
    cases (k.dec box data).2 <;> exact id

theorem Inv.step (hbox : box.Lawful) (h : Inv key role s) {a : WsReceptionAction}
    (hgenuine : Unforged box key s a) (htext : NoText s a) (hstep : step box s a = some s') :
    Inv key role s' := by
  cases a with
  | peerSeals msg =>
      cases hstep
      exact h.peerSeals box msg
  | sendRaw msg =>
      simp only [WsReception.step, Option.some.injEq] at hstep
      subst hstep
      exact h.sends (fun k hk => WsEndpoint.sendRaw_counters hk msg)
  | deliver event =>
      cases hstep
      exact h
  | next =>
      simp only [WsReception.step] at hstep
      split at hstep
      · cases hstep
      · rename_i hopen
        cases hstep
        exact h.next hbox (Bool.eq_false_of_not_eq_true hopen) hgenuine htext
  | intoSplit =>
      simp only [WsReception.step] at hstep
      split at hstep
      · rename_i stream hjoined
        cases hstep
        unfold Inv at h ⊢
        rwa [hjoined] at h
      · cases hstep

/-- For every run against a network that cannot forge a box, in which no call of `next`
ends with a text message: the messages that `next` returned before its first error are the
first messages that the peer sealed, as long as the peer's counter has not wrapped. -/
theorem returned_prefix_without_text (box : Secretbox) (hbox : box.Lawful) (events : List WsEvent)
    (key : Key) (role : SessionRole) {s : WsReception}
    (hreach : (system box events key role).Reach
      (fun s a => Unforged box key s a ∧ NoText s a) s)
    (hcount : s.session.peerSent.length < 2 ^ 64) :
    s.session.returned <+: s.session.peerSent := by
  have hinv : Inv key role s := hreach.invariant (Session.Secured.new key role)
    (fun _ _ _ h hguard hstep => h.step hbox hguard.1 hguard.2 hstep)
  exact hinv.inv.returned hcount

open Channel (sampleBox sampleBox_lawful sampleKey)

def sampleBinary (msg : Bytes) : WsEvent :=
  .message (.binary
    (sampleBox.sealBox msg ((NonceMode.directional .host).nonce 1 true) sampleKey))

/-- A genuine message between control messages, then the same message again. -/
def sampleEvents : List WsReceptionAction :=
  [.peerSeals [1, 2, 3], .sendRaw [5], .deliver (.message (.ping [0])), .intoSplit,
    .deliver (sampleBinary [1, 2, 3]), .next, .deliver (sampleBinary [1, 2, 3]), .next]

theorem returned_prefix_without_text_replay :
    ∃ s, (system sampleBox [] sampleKey .viewer).run sampleEvents = some s ∧
      s.session.failed = true ∧ s.session.returned = [[1, 2, 3]] ∧
      s.session.returned <+: s.session.peerSent := by
  have hrun : ((system sampleBox [] sampleKey .viewer).run sampleEvents).map (fun s =>
      decide (s.session.failed = true ∧ s.session.returned = [[1, 2, 3]] ∧
        s.session.peerSent.length < 2 ^ 64)) = some true := by
    decide +kernel
  obtain ⟨s, hs, hstate⟩ := Option.map_eq_some_iff.mp hrun
  obtain ⟨hfailed, hreturned, hcount⟩ := of_decide_eq_true hstate
  have hreach := TSys.reach_of_run (G := fun s a => Unforged sampleBox sampleKey s a ∧ NoText s a)
    sampleEvents (by decide +kernel) hs
  exact ⟨s, hs, hfailed, hreturned,
    returned_prefix_without_text sampleBox sampleBox_lawful [] sampleKey .viewer hreach hcount⟩

/-- A text message is returned though the peer has sealed nothing. -/
theorem text_returned :
    ¬ ∀ s, (system sampleBox [] sampleKey .viewer).Reach (Unforged sampleBox sampleKey) s →
      s.session.returned <+: s.session.peerSent := by
  intro hall
  have hrun : ((system sampleBox [] sampleKey .viewer).run
      [.deliver (.message (.text "hi")), .next]).map (fun s =>
        decide (s.session.returned = [[104, 105]] ∧ s.session.peerSent = [])) = some true := by
    decide +kernel
  obtain ⟨s, hs, hstate⟩ := Option.map_eq_some_iff.mp hrun
  obtain ⟨hreturned, hsent⟩ := of_decide_eq_true hstate
  have hprefix' := hall s (TSys.reach_of_run (G := Unforged sampleBox sampleKey) _
    (by decide +kernel) hs)
  rw [hreturned, hsent, List.prefix_nil] at hprefix'
  cases hprefix'

end WsReception

end HbbCommon.Tcp
