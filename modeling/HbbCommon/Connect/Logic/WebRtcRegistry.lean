import HbbCommon.Connect.WebRtc

/-!
# What the WebRTC registry keeps

The clean-up is keyed by the offer, not by the connection. It removes the right session as
long as no other connection's session is under that key, and it misses its own when it runs
before the session is registered. `Undisturbed` excludes these two, and nothing else.
-/

namespace HbbCommon.Connect

open HbbCommon.Base

namespace WebRtcRun

variable {s s' : WebRtcRun} {action : WebRtcAction} {n : Nat} {c c' : PeerConnection}

/-- A connection is registered only before its callback has run, and when the callback runs,
the session under the key of the connection is its own, or there is none. -/
def Undisturbed (s : WebRtcRun) : WebRtcAction → Prop
  | .finish n => ∀ c ∈ s.connections.get? n, s.sessions.get? c.key = none → c.cleaned = false
  | .callback n => ∀ c ∈ s.connections.get? n, c.described = true →
      ∀ m ∈ s.sessions.get? c.key, m = n
  | _ => True

instance (s : WebRtcRun) : ∀ action, Decidable (s.Undisturbed action)
  | .finish n => inferInstanceAs (Decidable
      (∀ c ∈ s.connections.get? n, s.sessions.get? c.key = none → c.cleaned = false))
  | .callback n => inferInstanceAs (Decidable
      (∀ c ∈ s.connections.get? n, c.described = true → ∀ m ∈ s.sessions.get? c.key, m = n))
  | .lookup _ _ | .describe _ | .abort _ | .ends _ => .isTrue trivial

structure Inv (s : WebRtcRun) : Prop where
  registered : ∀ key n, s.sessions.get? key = some n →
    ∃ c, s.connections.get? n = some c ∧ c.key = key ∧ c.described = true ∧ c.returned = true ∧
      c.cleaned = false
  fresh : ∀ n, s.created ≤ n → s.connections.get? n = none
  ended : ∀ n c, s.connections.get? n = some c → 0 < c.pending → c.ended = true
  own : ∀ r ∈ s.removed, r.1 = r.2 ∧ ∃ c, s.connections.get? r.2 = some c ∧ c.ended = true

theorem inv_new : Inv new where
  registered := fun _ _ h => by simp [new] at h
  fresh := fun _ _ => by simp [new]
  ended := fun _ _ h => by simp [new] at h
  own := fun _ h => nomatch h

/-- The steps of `new`, of the connections and of their callbacks. -/
inductive Stepped (s : WebRtcRun) : WebRtcAction → WebRtcRun → Prop
  | found (remoteOffer : Option SdpKey) (localOffer : SdpKey) :
      Stepped s (.lookup remoteOffer localOffer) s
  | create (remoteOffer : Option SdpKey) (localOffer : SdpKey) :
      Stepped s (.lookup remoteOffer localOffer) (s.create (remoteOffer.getD localOffer))
  | describe {n : Nat} {c : PeerConnection} (hget : s.connections.get? n = some c) :
      Stepped s (.describe n) (s.setConnection n { c with described := true })
  | finish {n : Nat} {c : PeerConnection} (hget : s.connections.get? n = some c)
      (hdescribed : c.described = true) :
      Stepped s (.finish n) (s.finishConnection n c)
  | abort {n : Nat} {c : PeerConnection} (hget : s.connections.get? n = some c) :
      Stepped s (.abort n) (s.setConnection n { c with returned := true })
  | ends {n : Nat} {c : PeerConnection} (hget : s.connections.get? n = some c) :
      Stepped s (.ends n) (s.setConnection n { c with ended := true, pending := c.pending + 1 })
  | callback {n : Nat} {c : PeerConnection} (hget : s.connections.get? n = some c)
      (hpending : 0 < c.pending) :
      Stepped s (.callback n) (s.cleanUp n c)

theorem stepped_of_step (h : s.step action = some s') : Stepped s action s' := by
  cases action with
  | lookup remoteOffer localOffer =>
      simp only [step] at h
      split at h
      · cases h
        exact .found remoteOffer localOffer
      · cases h
        exact .create remoteOffer localOffer
  | describe n =>
      simp only [step] at h
      split at h
      · rename_i c hget
        simp only [Option.ite_none_left_eq_some, Option.some.injEq] at h
        obtain ⟨-, rfl⟩ := h
        exact .describe hget
      · cases h
  | finish n =>
      simp only [step] at h
      split at h
      · rename_i c hget
        simp only [Option.ite_none_right_eq_some, Bool.and_eq_true, Option.some.injEq] at h
        obtain ⟨⟨hdescribed, -⟩, rfl⟩ := h
        exact .finish hget hdescribed
      · cases h
  | abort n =>
      simp only [step] at h
      split at h
      · rename_i c hget
        simp only [Option.ite_none_left_eq_some, Option.some.injEq] at h
        obtain ⟨-, rfl⟩ := h
        exact .abort hget
      · cases h
  | ends n =>
      simp only [step] at h
      split at h
      · rename_i c hget
        cases h
        exact .ends hget
      · cases h
  | callback n =>
      simp only [step] at h
      split at h
      · rename_i c hget
        simp only [Option.ite_none_right_eq_some, Option.some.injEq] at h
        obtain ⟨hpending, rfl⟩ := h
        exact .callback hget hpending
      · cases h

theorem get?_setConnection (m : Nat) : (s.setConnection n c').connections.get? m =
    if m = n then some c' else s.connections.get? m := by
  rw [setConnection, OrdMap.get?_insert]

/-- A connection that ended is still there, and ended, after one is changed. -/
theorem ended_setConnection (hget : s.connections.get? n = some c)
    (hended : c.ended = true → c'.ended = true) {m : Nat}
    (h : ∃ c, s.connections.get? m = some c ∧ c.ended = true) :
    ∃ c, (s.setConnection n c').connections.get? m = some c ∧ c.ended = true := by
  obtain ⟨d, hd, hdended⟩ := h
  rw [get?_setConnection]
  by_cases heq : m = n
  · subst heq
    rw [hget] at hd
    cases hd
    exact ⟨c', if_pos rfl, hended hdended⟩
  · exact ⟨d, by rw [if_neg heq]; exact hd, hdended⟩

/-- A connection goes on, without a callback. -/
theorem Inv.setConnection (h : Inv s) (hget : s.connections.get? n = some c)
    (hkey : c'.key = c.key) (hdescribed : c.described = true → c'.described = true)
    (hreturned : c.returned = true → c'.returned = true) (hcleaned : c'.cleaned = c.cleaned)
    (hended : c.ended = true → c'.ended = true) (hpending : 0 < c'.pending → c'.ended = true) :
    Inv (s.setConnection n c') where
  registered := by
    intro key m hsession
    obtain ⟨d, hd, hdkey, hddescribed, hdreturned, hdcleaned⟩ := h.registered key m hsession
    rw [get?_setConnection]
    by_cases heq : m = n
    · subst heq
      rw [hget] at hd
      cases hd
      exact ⟨c', if_pos rfl, hkey.trans hdkey, hdescribed hddescribed, hreturned hdreturned,
        hcleaned.trans hdcleaned⟩
    · exact ⟨d, by rw [if_neg heq]; exact hd, hdkey, hddescribed, hdreturned, hdcleaned⟩
  fresh := by
    intro m hm
    rw [get?_setConnection]
    have hnone := h.fresh m hm
    by_cases heq : m = n
    · subst heq
      rw [hget] at hnone
      cases hnone
    · rw [if_neg heq]
      exact hnone
  ended := by
    intro m d hd
    rw [get?_setConnection] at hd
    split at hd
    · cases hd
      exact hpending
    · exact h.ended m d hd
  own := fun r hr => ⟨(h.own r hr).1, ended_setConnection hget hended (h.own r hr).2⟩

theorem Inv.create (h : Inv s) (key : SdpKey) : Inv (s.create key) := by
  have hold : ∀ {m d}, s.connections.get? m = some d → m ≠ s.created := by
    rintro m d hd rfl
    rw [h.fresh s.created (le_refl _)] at hd
    cases hd
  have hget : ∀ {m d}, s.connections.get? m = some d →
      (s.create key).connections.get? m = some d := by
    intro m d hd
    rw [WebRtcRun.create, OrdMap.get?_insert, if_neg (hold hd)]
    exact hd
  refine ⟨?_, ?_, ?_, ?_⟩
  · intro key' m hsession
    obtain ⟨d, hd, hrest⟩ := h.registered key' m hsession
    exact ⟨d, hget hd, hrest⟩
  · intro m hm
    rw [WebRtcRun.create, OrdMap.get?_insert, if_neg (Nat.ne_of_gt hm)]
    exact h.fresh m (Nat.le_of_succ_le hm)
  · intro m d hd
    rw [WebRtcRun.create, OrdMap.get?_insert] at hd
    split at hd
    · cases hd
      exact fun hpos => absurd hpos (lt_irrefl 0)
    · exact h.ended m d hd
  · intro r hr
    obtain ⟨heq, d, hd, hended⟩ := h.own r hr
    exact ⟨heq, d, hget hd, hended⟩

/-- The final section registers the connection, or closes it. -/
theorem Inv.finish (h : Inv s) (hget : s.connections.get? n = some c)
    (hdescribed : c.described = true) (hguard : s.Undisturbed (.finish n)) :
    Inv (s.finishConnection n c) := by
  unfold finishConnection
  split
  · exact h.setConnection hget rfl id (fun _ => rfl) rfl (fun _ => rfl) (fun _ => rfl)
  · rename_i hnone
    have hset : Inv (s.setConnection n { c with returned := true }) :=
      h.setConnection hget rfl id (fun _ => rfl) rfl id (h.ended n c hget)
    refine ⟨?_, hset.fresh, hset.ended, hset.own⟩
    intro key m hsession
    rw [OrdMap.get?_insert] at hsession
    split at hsession
    · rename_i hkey
      cases hsession
      refine ⟨{ c with returned := true }, ?_, hkey.symm, hdescribed, rfl, hguard c hget hnone⟩
      rw [get?_setConnection, if_pos rfl]
    · exact hset.registered key m hsession

/-- The callback removes the session of its own connection. -/
theorem Inv.callback (h : Inv s) (hget : s.connections.get? n = some c) (hpending : 0 < c.pending)
    (hguard : s.Undisturbed (.callback n)) : Inv (s.cleanUp n c) := by
  let c' : PeerConnection := { c with pending := c.pending - 1, cleaned := true }
  have hended := h.ended n c hget hpending
  have hfresh : ∀ m, s.created ≤ m → (s.setConnection n c').connections.get? m = none := by
    intro m hm
    have hnone := h.fresh m hm
    rw [get?_setConnection, if_neg (fun heq => by
      rw [heq, hget] at hnone
      cases hnone)]
    exact hnone
  have hall : ∀ m d, (s.setConnection n c').connections.get? m = some d → 0 < d.pending →
      d.ended = true := by
    intro m d hd
    rw [get?_setConnection] at hd
    split at hd
    · cases hd
      exact fun _ => hended
    · exact h.ended m d hd
  -- the sessions of other connections are as before
  have hothers : ∀ key m, s.sessions.get? key = some m → m ≠ n →
      ∃ d, (s.setConnection n c').connections.get? m = some d ∧ d.key = key ∧
        d.described = true ∧ d.returned = true ∧ d.cleaned = false := by
    intro key m hsession hne
    obtain ⟨d, hd, hrest⟩ := h.registered key m hsession
    refine ⟨d, ?_, hrest⟩
    rw [get?_setConnection, if_neg hne]
    exact hd
  have hkept : c.ended = true → c'.ended = true := id
  have hown : ∀ r ∈ s.removed, r.1 = r.2 ∧
      ∃ d, (s.setConnection n c').connections.get? r.2 = some d ∧ d.ended = true :=
    fun r hr => ⟨(h.own r hr).1, ended_setConnection hget hkept (h.own r hr).2⟩
  have hself : ∃ d, (s.setConnection n c').connections.get? n = some d ∧ d.ended = true :=
    ⟨c', by rw [get?_setConnection, if_pos rfl], hended⟩
  unfold cleanUp
  split
  · rename_i hdescribed
    refine ⟨?_, hfresh, hall, ?_⟩
    · intro key m hsession
      have hsession' : (s.sessions.erase c.key).get? key = some m := hsession
      rw [OrdMap.get?_erase] at hsession'
      split at hsession'
      · cases hsession'
      · rename_i hkey
        refine hothers key m hsession' ?_
        rintro rfl
        obtain ⟨d, hd, hdkey, -⟩ := h.registered key m hsession'
        rw [hget] at hd
        cases hd
        exact hkey hdkey.symm
    · intro r hr
      obtain hr | hr := List.mem_append.mp hr
      · exact hown r hr
      · obtain ⟨m, hm, rfl⟩ := List.mem_map.mp hr
        exact ⟨hguard c hget hdescribed m (Option.mem_toList.mp hm), hself⟩
  · refine ⟨?_, hfresh, hall, ?_⟩
    · intro key m hsession
      have hsession' : (s.sessions.filter (fun _ m => m != n)).get? key = some m := hsession
      obtain ⟨hold, hne⟩ := OrdMap.get?_filter_eq_some.mp hsession'
      exact hothers key m hold (by simpa using hne)
    · intro r hr
      obtain hr | hr := List.mem_append.mp hr
      · exact hown r hr
      · obtain ⟨⟨key, m⟩, hm, rfl⟩ := List.mem_map.mp hr
        have hfilter := (OrdMap.get?_filter_eq_some.mp (OrdMap.mem_entries_iff.mp hm)).2
        exact ⟨by simpa using hfilter, hself⟩

theorem Inv.step (h : Inv s) (hguard : s.Undisturbed action) (hstep : s.step action = some s') :
    Inv s' := by
  cases stepped_of_step hstep with
  | found remoteOffer localOffer => exact h
  | create remoteOffer localOffer => exact h.create _
  | @describe n c hget =>
      exact h.setConnection hget rfl (fun _ => rfl) id rfl id (h.ended n c hget)
  | finish hget hdescribed => exact h.finish hget hdescribed hguard
  | @abort n c hget => exact h.setConnection hget rfl id (fun _ => rfl) rfl id (h.ended n c hget)
  | ends hget => exact h.setConnection hget rfl id id rfl (fun _ => rfl) (fun _ => rfl)
  | callback hget hpending => exact h.callback hget hpending hguard

/-- Two calls for one offer: the second finds the session of the first and closes its own
connection. -/
def raceActions : List WebRtcAction :=
  [.lookup (some ['k']) [], .lookup (some ['k']) [], .describe 0, .describe 1, .finish 0,
    .finish 1, .callback 1]

def raceRun : WebRtcRun := (system.run raceActions).getD new

end WebRtcRun

end HbbCommon.Connect
