import HbbCommon.Transport.Authentication
import HbbCommon.Transport.Logic.Control

/-!
# Mutual authentication

Whatever the network delivers, an end that accepts an honest key has a partner: a session of the
holder of that key, on the same connection, in the same session and with the same nonces. The
network has the keys that are not honest and what honest ends signed; it cannot sign for them.
-/

namespace HbbCommon.Transport

open HbbCommon.Base

variable {σ κ : Type} {sign : Sign σ} {exporter : κ → Exporter} {honest : FixedBytes 32 → Prop}
  {s t : Authentications sign κ}

/-- What was signed under a key: anything, where the key is not honest, and else the hellos of the
sessions of its holder. -/
inductive Signed (exporter : κ → Exporter) (honest : FixedBytes 32 → Prop)
    (s : Authentications sign κ) : FixedBytes 32 → Bytes → Prop
  | foreign {key : FixedBytes 32} {message : Bytes} (h : ¬ honest key) :
      Signed exporter honest s key message
  | client {c : ClientSession sign κ} (hmem : c ∈ s.clients) {material : FixedBytes 32}
      (hmaterial : exporter c.connection c.sessionId = some material) :
      Signed exporter honest s c.identity.publicKey
        (clientTranscript c.sessionId material c.identity.publicKey c.nonce)
  | server {v : ServerSession sign κ} (hmem : v ∈ s.servers) {material : FixedBytes 32}
      (hmaterial : exporter v.connection v.sessionId = some material) :
      Signed exporter honest s v.identity.publicKey
        (serverTranscript v.sessionId material v.clientKey v.clientNonce v.identity.publicKey
          v.nonce)

/-- What the network delivers carries no signature but those, and a client draws a new nonce. -/
def AuthenticationAction.Possible (exporter : κ → Exporter) (honest : FixedBytes 32 → Prop)
    (s : Authentications sign κ) : AuthenticationAction sign κ → Prop
  | .authenticateClient client _ => client.nonce ∉ s.clients.map ClientSession.nonce
  | .authenticateServer _ _ _ _ _ _ stream => ∀ request rest,
      readHandshakeMessage stream .clientHello = (.ok request, rest) →
        sign.Unforged (Signed exporter honest s) request.payload
  | .finishClient _ stream => ∀ response rest,
      readHandshakeMessage stream .serverHello = (.ok response, rest) →
        sign.Unforged (Signed exporter honest s) response.payload

/-- The exporters of two connections differ. -/
def ChannelBinding (exporter : κ → Exporter) : Prop :=
  ∀ connection connection' sessionId material, exporter connection sessionId = some material →
    exporter connection' sessionId = some material → connection = connection'

/-- Two sessions at the two ends of a connection that saw the same hello. -/
structure Partners (c : ClientSession sign κ) (v : ServerSession sign κ) : Prop where
  connection : v.connection = c.connection
  sessionId : v.sessionId = c.sessionId
  clientKey : v.clientKey = c.identity.publicKey
  clientNonce : v.clientNonce = c.nonce

/-! ## What an end that accepts has checked -/

theorem exportKeyingMaterial_eq_ok_iff {e : Exporter} {sessionId : SessionId}
    {material : FixedBytes 32} :
    exportKeyingMaterial e sessionId = .ok material ↔ e sessionId = some material := by
  unfold exportKeyingMaterial
  cases e sessionId with
  | none => simp
  | some m => simp

section

variable {identity : DeviceIdentity sign} {expected : Option (FixedBytes 32)}
  {sessionId : SessionId} {nonce material : FixedBytes 32} {timestamp : Nat}
  {request response answer : ParsedMessage} {c : AuthenticatedControlChannel}

theorem any_ne_eq_false {key : FixedBytes 32}
    (h : ¬ expected.any (fun expected => decide (key ≠ expected)) = true) :
    ∀ other, expected = some other → key = other := by
  rintro other rfl
  simpa using h

/-- What a server that answers has checked. -/
theorem answerClient_eq_ok {expected : Option (FixedBytes 32)}
    (h : answerClient identity material expected sessionId nonce timestamp request =
      .ok (c, answer)) :
    c.sessionId = sessionId ∧ (∃ clientNonce,
      clientHelloOf sign request.payload sessionId material =
        .ok (c.peerIdentityKey, clientNonce)) ∧
      ∀ key, expected = some key → c.peerIdentityKey = key := by
  obtain ⟨⟨clientKey, clientNonce⟩, hparse, h⟩ := bind_eq_ok.mp h
  obtain ⟨htrusted, h⟩ := check_eq_ok.mp h
  obtain ⟨answer', -, h⟩ := bind_eq_ok.mp h
  cases h
  exact ⟨rfl, ⟨clientNonce, hparse⟩, any_ne_eq_false htrusted⟩

/-- A server that was given a session answers in it, and else in the client's. -/
theorem exists_answerClient {e : Exporter} {given : Option SessionId}
    (h : authenticateServerIn given identity e expected nonce timestamp request =
      .ok (c, answer)) :
    ∃ sessionId material, e sessionId = some material ∧
      answerClient identity material expected sessionId nonce timestamp request =
        .ok (c, answer) := by
  cases given with
  | some sessionId =>
      obtain ⟨material, hmaterial, h⟩ := bind_eq_ok.mp h
      exact ⟨sessionId, material, exportKeyingMaterial_eq_ok_iff.mp hmaterial,
        (check_eq_ok.mp h).2⟩
  | none =>
      obtain ⟨-, h⟩ := check_eq_ok.mp h
      obtain ⟨material, hmaterial, h⟩ := bind_eq_ok.mp h
      exact ⟨_, material, exportKeyingMaterial_eq_ok_iff.mp hmaterial, h⟩

theorem serverSession_eq_ok {connection : κ} {given : Option SessionId} {timestamp : UInt64}
    {v : ServerSession sign κ}
    (h : serverSession exporter identity connection given expected nonce timestamp request =
      .ok v) :
    v.connection = connection ∧ v.expected = expected ∧
      (∀ key, expected = some key → v.clientKey = key) ∧
      ∃ material, exporter connection v.sessionId = some material ∧
        (parseClientHello sign request.payload v.sessionId material).run =
          some (.ok (v.clientKey, v.clientNonce)) := by
  obtain ⟨⟨c, answer⟩, hanswer, h⟩ := bind_eq_ok.mp h
  obtain ⟨sessionId, material, hmaterial, hanswer⟩ := exists_answerClient hanswer
  obtain ⟨hsession, ⟨clientNonce, hparse⟩, hexpected⟩ := answerClient_eq_ok hanswer
  obtain ⟨material', hmaterial', h⟩ := bind_eq_ok.mp h
  obtain ⟨⟨key, nonce'⟩, hparse', h⟩ := bind_eq_ok.mp h
  cases h
  have hsame : material' = material := by
    rw [exportKeyingMaterial_eq_ok_iff, hsession, hmaterial] at hmaterial'
    exact (Option.some.inj hmaterial').symm
  rw [hsession, hsame, hparse] at hparse'
  cases hparse'
  refine ⟨rfl, rfl, hexpected, material, ?_, ?_⟩
  · show exporter connection c.sessionId = some material
    rw [hsession]
    exact hmaterial
  · show (parseClientHello sign request.payload c.sessionId material).run = _
    rw [hsession]
    exact clientHelloOf_eq_ok_iff.mp hparse

/-- What a client that accepts has checked. -/
theorem authenticateClient_eq_ok {e : Exporter}
    (h : authenticateClient identity e expected sessionId nonce response = .ok c) :
    (∀ key, expected = some key → c.peerIdentityKey = key) ∧
      ∃ material serverNonce, e sessionId = some material ∧
        (parseServerHello sign response.payload sessionId material nonce identity.publicKey).run =
          some (.ok (c.peerIdentityKey, serverNonce)) := by
  obtain ⟨material, hmaterial, h⟩ := bind_eq_ok.mp h
  obtain ⟨-, h⟩ := check_eq_ok.mp h
  obtain ⟨⟨serverKey, serverNonce⟩, hparse, h⟩ := bind_eq_ok.mp h
  obtain ⟨htrusted, h⟩ := check_eq_ok.mp h
  cases h
  exact ⟨any_ne_eq_false htrusted, material, serverNonce,
    exportKeyingMaterial_eq_ok_iff.mp hmaterial, serverHelloOf_eq_ok_iff.mp hparse⟩

end

/-! ## Who signed -/

/-- An honest key signs a client's hello only in a session of its holder. -/
theorem Signed.exists_client (hbinding : ChannelBinding exporter) {key nonce : FixedBytes 32}
    {connection : κ} {sessionId : SessionId} {material : FixedBytes 32} (hhonest : honest key)
    (hmaterial : exporter connection sessionId = some material)
    (h : Signed exporter honest s key (clientTranscript sessionId material key nonce)) :
    ∃ c ∈ s.clients, c.identity.publicKey = key ∧ c.connection = connection ∧
      c.sessionId = sessionId ∧ c.nonce = nonce := by
  generalize hmessage : clientTranscript sessionId material key nonce = message at h
  cases h with
  | foreign h => exact absurd hhonest h
  | @client c hmem material' hmaterial' =>
      obtain ⟨hsession, rfl, -, hnonce⟩ := clientTranscript_injective hmessage
      rw [← hsession] at hmaterial'
      exact ⟨c, hmem, rfl, hbinding _ _ _ _ hmaterial' hmaterial, hsession.symm, hnonce.symm⟩
  | server => exact absurd hmessage (clientTranscript_ne_serverTranscript _ _ _ _ _ _ _ _ _ _)

theorem Signed.exists_server (hbinding : ChannelBinding exporter)
    {key clientKey clientNonce nonce : FixedBytes 32} {connection : κ} {sessionId : SessionId}
    {material : FixedBytes 32} (hhonest : honest key)
    (hmaterial : exporter connection sessionId = some material)
    (h : Signed exporter honest s key
      (serverTranscript sessionId material clientKey clientNonce key nonce)) :
    ∃ v ∈ s.servers, v.identity.publicKey = key ∧ v.connection = connection ∧
      v.sessionId = sessionId ∧ v.clientKey = clientKey ∧ v.clientNonce = clientNonce := by
  generalize hmessage : serverTranscript sessionId material clientKey clientNonce key nonce =
    message at h
  cases h with
  | foreign h => exact absurd hhonest h
  | client =>
      exact absurd hmessage.symm (clientTranscript_ne_serverTranscript _ _ _ _ _ _ _ _ _ _)
  | @server v hmem material' hmaterial' =>
      obtain ⟨hsession, rfl, hkey, hnonce, -⟩ := serverTranscript_injective hmessage
      rw [← hsession] at hmaterial'
      exact ⟨v, hmem, rfl, hbinding _ _ _ _ hmaterial' hmaterial, hsession.symm, hkey.symm,
        hnonce.symm⟩

/-! ## Every session -/

/-- A server that accepted an honest key has a partner. -/
def ServerOfClient (honest : FixedBytes 32 → Prop) (s : Authentications sign κ)
    (v : ServerSession sign κ) : Prop :=
  (∀ key, v.expected = some key → v.clientKey = key) ∧
    (honest v.clientKey → ∃ c ∈ s.clients, Partners c v)

/-- A client that accepted an honest key has a partner. -/
def ClientOfServer (honest : FixedBytes 32 → Prop) (s : Authentications sign κ)
    (c : ClientSession sign κ) (key : FixedBytes 32) : Prop :=
  (∀ other, c.expected = some other → key = other) ∧
    (honest key → ∃ v ∈ s.servers, v.identity.publicKey = key ∧ Partners c v)

/-- What holds of all sessions. -/
structure Authentic (honest : FixedBytes 32 → Prop) (s : Authentications sign κ) : Prop where
  servers : ∀ v ∈ s.servers, ServerOfClient honest s v
  accepted : ∀ i key, (i, key) ∈ s.accepted →
    ∃ c, s.clients[i]? = some c ∧ ClientOfServer honest s c key
  nonces : (s.clients.map ClientSession.nonce).Nodup

theorem ServerOfClient.mono {v : ServerSession sign κ} (h : ServerOfClient honest s v)
    (hclients : s.clients ⊆ t.clients) : ServerOfClient honest t v :=
  ⟨h.1, fun hhonest => (h.2 hhonest).imp (fun _ hc => ⟨hclients hc.1, hc.2⟩)⟩

theorem ClientOfServer.mono {c : ClientSession sign κ} {key : FixedBytes 32}
    (h : ClientOfServer honest s c key) (hservers : s.servers ⊆ t.servers) :
    ClientOfServer honest t c key :=
  ⟨h.1, fun hhonest => (h.2 hhonest).imp (fun _ hv => ⟨hservers hv.1, hv.2⟩)⟩

theorem Authentic.begin (hs : Authentic honest s) {c : ClientSession sign κ}
    (hfresh : c.nonce ∉ s.clients.map ClientSession.nonce) :
    Authentic honest { s with clients := s.clients ++ [c] } where
  servers v hv := (hs.servers v hv).mono (List.subset_append_left _ _)
  accepted i key h := by
    obtain ⟨c', hget, hc'⟩ := hs.accepted i key h
    refine ⟨c', ?_, hc'.mono (List.Subset.refl _)⟩
    exact (List.getElem?_append_left (List.getElem?_eq_some_iff.mp hget).1).trans hget
  nonces := by
    rw [List.map_append]
    exact List.nodup_append.mpr ⟨hs.nonces, List.nodup_singleton _, fun a ha b hb => by
      rintro rfl
      exact hfresh (List.mem_singleton.mp hb ▸ ha)⟩

theorem Authentic.answered (hs : Authentic honest s) {v : ServerSession sign κ}
    (hv : ServerOfClient honest s v) :
    Authentic honest { s with servers := s.servers ++ [v] } where
  servers v' hv' := by
    rcases List.mem_append.mp hv' with hv' | hv'
    · exact hs.servers v' hv'
    · rw [List.mem_singleton.mp hv']
      exact hv
  accepted i key h := by
    obtain ⟨c, hget, hc⟩ := hs.accepted i key h
    exact ⟨c, hget, hc.mono (List.subset_append_left _ _)⟩
  nonces := hs.nonces

theorem Authentic.finished (hs : Authentic honest s) {i : Nat} {c : ClientSession sign κ}
    {key : FixedBytes 32} (hget : s.clients[i]? = some c) (hc : ClientOfServer honest s c key) :
    Authentic honest { s with accepted := s.accepted ++ [(i, key)] } where
  servers := hs.servers
  accepted j other h := by
    rcases List.mem_append.mp h with h | h
    · exact hs.accepted j other h
    · cases List.mem_singleton.mp h
      exact ⟨c, hget, hc⟩
  nonces := hs.nonces

theorem Authentic.step (hbinding : ChannelBinding exporter) (hs : Authentic honest s)
    {action : AuthenticationAction sign κ} (hpossible : action.Possible exporter honest s)
    (h : s.step exporter action = some t) : Authentic honest t := by
  cases action with
  | authenticateClient client timestamp =>
      unfold Authentications.step at h
      simp only at h
      split at h
      · cases h
        exact hs.begin hpossible
      · cases h
        exact hs
  | authenticateServer identity connection given expected nonce timestamp stream =>
      unfold Authentications.step at h
      simp only at h
      cases hread : readHandshakeMessage stream .clientHello with
      | mk result rest =>
          rw [hread] at h
          cases result with
          | error error =>
              cases h
              exact hs
          | ok request =>
              simp only at h
              split at h
              · cases h
                exact hs
              · rename_i v hsession
                cases h
                obtain ⟨hconnection, hexpected, htrusted, material, hmaterial, hparse⟩ :=
                  serverSession_eq_ok hsession
                refine hs.answered ⟨hexpected ▸ htrusted, fun hhonest => ?_⟩
                have hsigned := signed_of_parseClientHello (hpossible request rest hread) hparse
                obtain ⟨c, hmem, hkey, hsame, hid, hnonce⟩ :=
                  hsigned.exists_client hbinding hhonest hmaterial
                exact ⟨c, hmem, hconnection.trans hsame.symm, hid.symm, hkey.symm, hnonce.symm⟩
  | finishClient i stream =>
      unfold Authentications.step at h
      simp only at h
      cases hget : s.clients[i]? with
      | none =>
          rw [hget] at h
          cases h
      | some c =>
          rw [hget] at h
          simp only at h
          split at h
          · cases h
          · cases hread : readHandshakeMessage stream .serverHello with
            | mk result rest =>
                rw [hread] at h
                cases result with
                | error error =>
                    cases h
                    exact hs
                | ok response =>
                    simp only at h
                    split at h
                    · cases h
                      exact hs
                    · rename_i channel hchannel
                      cases h
                      obtain ⟨htrusted, material, serverNonce, hmaterial, hparse⟩ :=
                        authenticateClient_eq_ok hchannel
                      refine hs.finished hget ⟨htrusted, fun hhonest => ?_⟩
                      have hsigned :=
                        signed_of_parseServerHello (hpossible response rest hread) hparse
                      obtain ⟨v, hmem, hkey, hsame, hid, hclientKey, hnonce⟩ :=
                        hsigned.exists_server hbinding hhonest hmaterial
                      exact ⟨v, hmem, hkey, hsame, hid, hclientKey, hnonce⟩

end HbbCommon.Transport
