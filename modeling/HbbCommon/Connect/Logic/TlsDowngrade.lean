import HbbCommon.Base.Line
import HbbCommon.Connect.Tls

/-!
# When a connection may skip the verification

What a connection reads from the caches was written by a connection to the same key. It says
something about the server of the URL exactly when the key stands for the server, and then no
verified server is downgraded (`Inv`). Two URLs with one key and two servers, or one server
under two keys, make a run that is (`noDowngrade_iff`).
-/

namespace HbbCommon.Connect

open HbbCommon.Base

/-- Among the URLs, the cache key and the server are the same thing. -/
def Consistent (urls : Set Url) : Prop :=
  ∀ u ∈ urls, ∀ v ∈ urls, isPlain u = false → isPlain v = false →
    (getDomainAndPortFromUrl u = getDomainAndPortFromUrl v ↔ serverOf u = serverOf v)

/-- What follows the authority of a URL. -/
def afterAuthority (url : Url) : Url :=
  (afterScheme url).dropWhile (fun c => c != '/' && c != '?' && c != '#')

/-- The key is the server unless an `@` or a `#` follows the authority: the last `@` is looked
for in the whole URL, and only `/` and `?` end the domain. -/
theorem getDomainAndPortFromUrl_eq_serverOf {url : Url} (hat : '@' ∉ afterAuthority url)
    (hhash : (afterAuthority url).head? ≠ some '#') :
    getDomainAndPortFromUrl url = serverOf url := by
  let authority := (afterScheme url).takeWhile (fun c => c != '/' && c != '?' && c != '#')
  have hsplit : afterScheme url = authority ++ afterAuthority url :=
    (List.takeWhile_append_dropWhile).symm
  have hafter : afterLastAt (authority ++ afterAuthority url) =
      afterLastAt authority ++ afterAuthority url := by
    have hall : ∀ c ∈ (afterAuthority url).reverse, (c != '@') = true := by
      intro c hc
      rw [List.mem_reverse] at hc
      simpa using fun heq : c = '@' => hat (heq ▸ hc)
    rw [afterLastAt, List.reverse_append, List.takeWhile_append_of_pos hall, List.reverse_append,
      List.reverse_reverse]
    rfl
  have hserver : ∀ c ∈ afterLastAt authority, (c != '/' && c != '?') = true := by
    intro c hc
    have hauthority : c ∈ authority := by
      rw [afterLastAt, List.mem_reverse] at hc
      exact List.mem_reverse.mp ((List.takeWhile_prefix _).subset hc)
    have hchar := List.mem_takeWhile_imp hauthority
    simp only [Bool.and_eq_true] at hchar ⊢
    exact hchar.1
  have hrest : (afterAuthority url).takeWhile (fun c => c != '/' && c != '?') = [] := by
    cases hcase : afterAuthority url with
    | nil => rfl
    | cons c rest =>
        have hhead := List.head_dropWhile_not (fun c => c != '/' && c != '?' && c != '#')
          (l := afterScheme url) (by
            rw [show List.dropWhile _ (afterScheme url) = c :: rest from hcase]
            exact List.cons_ne_nil _ _)
        simp only [show List.dropWhile (fun c => c != '/' && c != '?' && c != '#')
          (afterScheme url) = c :: rest from hcase, List.head_cons] at hhead
        have hne : c ≠ '#' := fun heq => hhash (by rw [hcase, heq]; rfl)
        rw [List.takeWhile_cons_of_neg]
        simpa [hne] using hhead
  rw [getDomainAndPortFromUrl, hsplit, hafter, List.takeWhile_append_of_pos hserver, hrest,
    List.append_nil]
  rfl

theorem consistent_of_clean {urls : Set Url}
    (h : ∀ url ∈ urls, '@' ∉ afterAuthority url ∧ (afterAuthority url).head? ≠ some '#') :
    Consistent urls := by
  intro u hu v hv _ _
  rw [getDomainAndPortFromUrl_eq_serverOf (h u hu).1 (h u hu).2,
    getDomainAndPortFromUrl_eq_serverOf (h v hv).1 (h v hv).2]

/-- Some verified attempt to the server of the URL ended like this. -/
def HasVerified (outcome : AttemptOutcome) (attempts : List Attempt) (url : Url) : Prop :=
  ∃ b ∈ attempts, serverOf b.url = serverOf url ∧ b.Verified ∧ b.outcome = outcome

theorem HasVerified.append {outcome : AttemptOutcome} {attempts : List Attempt} {url : Url}
    (h : HasVerified outcome attempts url) (more : List Attempt) :
    HasVerified outcome (attempts ++ more) url := by
  obtain ⟨b, hb, hrest⟩ := h
  exact ⟨b, List.mem_append_left _ hb, hrest⟩

theorem hasVerified_concat {outcome : AttemptOutcome} {attempts : List Attempt} {a : Attempt}
    {url : Url} (h : HasVerified outcome (attempts ++ [a]) url) :
    HasVerified outcome attempts url ∨
      serverOf a.url = serverOf url ∧ a.Verified ∧ a.outcome = outcome := by
  obtain ⟨b, hb, hrest⟩ := h
  obtain hb | hb := List.mem_append.mp hb
  · exact .inl ⟨b, hb, hrest⟩
  · rw [List.mem_singleton.mp hb] at hrest
    exact .inr hrest

namespace TlsRun

variable {urls : Set Url} {s : TlsRun} {url : Url} {danger : Option Bool} {tlsType : TlsType}
  {outcome : AttemptOutcome}

structure Inv (urls : Set Url) (s : TlsRun) : Prop where
  off : ∀ (before : List Attempt) (a : Attempt) (after : List Attempt),
    s.attempts = before ++ a :: after → a.dangerAcceptInvalidCert = true →
    HasVerified .failed before a.url ∧ ¬ HasVerified .connected before a.url
  noPlain : ∀ key, s.urlTlsType.get? key ≠ some .plain
  cachedOff : ∀ u ∈ urls, isPlain u = false →
    s.urlTlsDangerAcceptInvalidCerts.get? (getDomainAndPortFromUrl u) = some true →
    HasVerified .failed s.attempts u
  cachedOn : ∀ u ∈ urls, isPlain u = false → HasVerified .connected s.attempts u →
    s.urlTlsDangerAcceptInvalidCerts.get? (getDomainAndPortFromUrl u) = some false

theorem inv_new (urls : Set Url) : Inv urls new where
  off := fun _ _ _ h => absurd h.symm (List.append_ne_nil_of_right_ne_nil _ (List.cons_ne_nil _ _))
  noPlain := fun key => by simp [new]
  cachedOff := fun u _ _ h => by simp [new] at h
  cachedOn := fun u _ _ h => by
    obtain ⟨b, hb, -⟩ := h
    cases hb

/-- What the attempts so far say about a value of `danger_accept_invalid_cert`. -/
structure Justified (s : TlsRun) (url : Url) (danger : Option Bool) : Prop where
  off : danger = some true → HasVerified .failed s.attempts url
  on : HasVerified .connected s.attempts url → danger = some false

/-- What is cached for a URL is justified. -/
theorem Inv.justified (h : Inv urls s) (hurl : url ∈ urls) (hplain : isPlain url = false) :
    Justified s url (s.urlTlsDangerAcceptInvalidCerts.get? (getDomainAndPortFromUrl url)) :=
  ⟨h.cachedOff url hurl hplain, h.cachedOn url hurl hplain⟩

theorem off_concat {attempts : List Attempt} {a : Attempt}
    (h : ∀ (before : List Attempt) (b : Attempt) (after : List Attempt),
      attempts = before ++ b :: after → b.dangerAcceptInvalidCert = true →
      HasVerified .failed before b.url ∧ ¬ HasVerified .connected before b.url)
    (ha : a.dangerAcceptInvalidCert = true →
      HasVerified .failed attempts a.url ∧ ¬ HasVerified .connected attempts a.url) :
    ∀ (before : List Attempt) (b : Attempt) (after : List Attempt),
      attempts ++ [a] = before ++ b :: after → b.dangerAcceptInvalidCert = true →
      HasVerified .failed before b.url ∧ ¬ HasVerified .connected before b.url := by
  intro before b after heq hoff
  obtain ⟨rfl, rfl, -⟩ | ⟨t, hattempts, -⟩ := concat_eq_append_cons heq
  · exact ha hoff
  · exact h before b t hattempts hoff

/-- An attempt that does not end in a verified connection. -/
theorem Inv.attempt (h : Inv urls s)
    (hoff : danger.getD false = true →
      HasVerified .failed s.attempts url ∧ ¬ HasVerified .connected s.attempts url)
    (hend : tlsType = .plain ∨ outcome ≠ .connected) :
    Inv urls (s.attempt url tlsType (danger.getD false) outcome) where
  off := off_concat h.off hoff
  noPlain := h.noPlain
  cachedOff := fun u hu hplain hcached => (h.cachedOff u hu hplain hcached).append _
  cachedOn := by
    intro u hu hplain hconnected
    obtain hold | ⟨-, ⟨htls, -⟩, hnew⟩ := hasVerified_concat hconnected
    · exact h.cachedOn u hu hplain hold
    · exact hend.elim (fun heq => absurd heq htls) (fun hne => absurd hnew hne)

theorem Justified.off_getD (h : Justified s url danger) (hoff : danger.getD false = true) :
    HasVerified .failed s.attempts url ∧ ¬ HasVerified .connected s.attempts url := by
  have hdanger : danger = some true := by
    cases danger with
    | none => cases hoff
    | some value =>
        cases hoff
        rfl
  refine ⟨h.off hdanger, ?_⟩
  intro hconnected
  have hon := h.on hconnected
  rw [hdanger] at hon
  cases hon

/-- A connection is cached for all URLs of its server, and for no others. -/
theorem Inv.connected (h : Inv urls s) (hconsistent : Consistent urls) (hurl : url ∈ urls)
    (hplain : isPlain url = false) (hjustified : Justified s url danger)
    (htls : tlsType ≠ .plain) :
    Inv urls ((s.attempt url tlsType (danger.getD false) .connected).upsertTlsCache url tlsType
      (danger.getD false)) := by
  rw [upsertTlsCache, hplain]
  refine ⟨off_concat h.off hjustified.off_getD, ?_, ?_, ?_⟩
  · intro key
    show (s.urlTlsType.insert _ _).get? key ≠ _
    rw [OrdMap.get?_insert]
    split
    · exact fun heq => htls (Option.some.inj heq)
    · exact h.noPlain key
  · intro u hu hplainU hcached
    have hcached : (s.urlTlsDangerAcceptInvalidCerts.insert _ _).get? _ = some true := hcached
    rw [OrdMap.get?_insert] at hcached
    split at hcached
    · rename_i hkey
      obtain ⟨b, hb, hserver, hrest⟩ := (hjustified.off_getD (Option.some.inj hcached)).1
      refine HasVerified.append ⟨b, hb, ?_, hrest⟩ _
      rw [hserver, (hconsistent u hu url hurl hplainU hplain).mp hkey]
    · exact (h.cachedOff u hu hplainU hcached).append _
  · intro u hu hplainU hconnected
    show (s.urlTlsDangerAcceptInvalidCerts.insert _ _).get? _ = some false
    rw [OrdMap.get?_insert]
    obtain hold | ⟨hserver, ⟨-, hverified⟩, -⟩ := hasVerified_concat hconnected
    · split
      · rename_i hkey
        -- a verified connection before this one has fixed the flag that it reads
        have hserver := (hconsistent u hu url hurl hplainU hplain).mp hkey
        obtain ⟨b, hb, hb', hrest⟩ := hold
        rw [hjustified.on ⟨b, hb, hb'.trans hserver, hrest⟩]
        rfl
      · exact h.cachedOn u hu hplainU hold
    · rw [if_pos ((hconsistent u hu url hurl hplainU hplain).mpr hserver.symm)]
      exact congrArg some hverified

/-- After a verified attempt has failed, the next one may skip the verification. -/
theorem Justified.afterFailure (h : Justified s url none) (htls : tlsType ≠ .plain) :
    Justified (s.attempt url tlsType false .failed) url (some true) where
  off := fun _ => ⟨_, List.mem_append_right _ List.mem_cons_self, rfl, ⟨htls, rfl⟩, rfl⟩
  on := by
    intro hconnected
    obtain hold | ⟨-, -, hnew⟩ := hasVerified_concat hconnected
    · cases h.on hold
    · cases hnew

theorem Inv.tryConnect (hconsistent : Consistent urls) (hurl : url ∈ urls)
    (hplain : isPlain url = false) (isTlsTypeCached : Bool) (outcomes : List AttemptOutcome) :
    ∀ {tlsType danger s}, Inv urls s → Justified s url danger → tlsType ≠ .plain →
      Inv urls (tryConnect url isTlsTypeCached
        (s.urlTlsDangerAcceptInvalidCerts.get? (getDomainAndPortFromUrl url)) outcomes tlsType
        danger s) := by
  induction outcomes with
  | nil => exact fun h _ _ => h
  | cons outcome outcomes ih =>
      intro tlsType danger s h hjustified htls
      cases outcome with
      | connected => exact h.connected hconsistent hurl hplain hjustified htls
      | timedOut => exact h.attempt hjustified.off_getD (.inr nofun)
      | failed =>
          have hfailed : Inv urls (s.attempt url tlsType (danger.getD false) .failed) :=
            h.attempt hjustified.off_getD (.inr nofun)
          simp only [TlsRun.tryConnect]
          split
          · exact ih hfailed (hjustified.afterFailure htls) nofun
          · exact ih hfailed (hfailed.justified hurl hplain) nofun
          · exact ih hfailed (hjustified.afterFailure htls) nofun
          · exact hfailed

theorem Inv.nativetls (hconsistent : Consistent urls) (hurl : url ∈ urls)
    (hplain : isPlain url = false) (h : Inv urls s) (hjustified : Justified s url danger)
    (outcomes : List AttemptOutcome) :
    Inv urls (httpsConnectNativetlsWrapDanger url danger s outcomes) := by
  cases outcomes with
  | nil => exact h
  | cons outcome outcomes =>
      cases outcome with
      | connected => exact h.connected hconsistent hurl hplain hjustified nofun
      | timedOut => exact h.attempt hjustified.off_getD (.inr nofun)
      | failed => exact h.attempt hjustified.off_getD (.inr nofun)

theorem Inv.rustls (hconsistent : Consistent urls) (hurl : url ∈ urls)
    (hplain : isPlain url = false) (isTlsTypeCached : Bool) (outcomes : List AttemptOutcome) :
    ∀ {danger s}, Inv urls s → Justified s url danger →
      Inv urls (httpsConnectRustlsWrapDanger url isTlsTypeCached
        (s.urlTlsDangerAcceptInvalidCerts.get? (getDomainAndPortFromUrl url)) outcomes danger
        s) := by
  induction outcomes with
  | nil => exact fun h _ => h
  | cons outcome outcomes ih =>
      intro danger s h hjustified
      cases outcome with
      | connected => exact h.connected hconsistent hurl hplain hjustified nofun
      | timedOut => exact h.attempt hjustified.off_getD (.inr nofun)
      | failed =>
          have hfailed : Inv urls (s.attempt url .rustls (danger.getD false) .failed) :=
            h.attempt hjustified.off_getD (.inr nofun)
          simp only [TlsRun.httpsConnectRustlsWrapDanger]
          split
          · rename_i hnone
            rw [Option.isNone_iff_eq_none] at hnone
            subst hnone
            exact ih hfailed (hjustified.afterFailure nofun)
          · split
            · exact Inv.nativetls hconsistent hurl hplain hfailed
                (hfailed.justified hurl hplain) outcomes
            · exact hfailed

theorem Inv.getD_ne_plain (h : Inv urls s) (key : Url) :
    (s.urlTlsType.get? key).getD .rustls ≠ .plain := by
  have hkey := h.noPlain key
  cases hget : s.urlTlsType.get? key with
  | none => nofun
  | some tlsType =>
      rw [hget] at hkey
      exact fun heq => hkey (congrArg some heq)

/-- A plain connection has no certificate, and caches nothing. -/
theorem Inv.plain (h : Inv urls s) (hplain : isPlain url = true) (isTlsTypeCached : Bool)
    (outcomes : List AttemptOutcome) :
    Inv urls (TlsRun.tryConnect url isTlsTypeCached (some false) outcomes .plain (some false)
      s) := by
  cases outcomes with
  | nil => exact h
  | cons outcome outcomes =>
      have hattempt : Inv urls (s.attempt url .plain ((some false).getD false) outcome) :=
        h.attempt nofun (.inl rfl)
      cases outcome with
      | connected =>
          simp only [TlsRun.tryConnect, upsertTlsCache, hplain]
          exact hattempt
      | timedOut => exact hattempt
      | failed => exact hattempt

theorem Inv.wsConnect (hconsistent : Consistent urls) (h : Inv urls s) (hurl : url ∈ urls)
    (outcomes : List AttemptOutcome) : Inv urls (s.wsConnect true url outcomes) := by
  cases hplain : isPlain url with
  | true =>
      simp only [TlsRun.wsConnect, getCachedTlsType, getCachedTlsAcceptInvalidCert, hplain]
      exact h.plain hplain true outcomes
  | false =>
      simp only [TlsRun.wsConnect, getCachedTlsType, getCachedTlsAcceptInvalidCert, hplain]
      exact Inv.tryConnect hconsistent hurl hplain _ outcomes h (h.justified hurl hplain)
        (h.getD_ne_plain _)

theorem isPlain_proxyUrl (host : List Char) : isPlain (proxyUrl host) = false := by
  have hurl : proxyUrl host =
      'h' :: 't' :: 't' :: 'p' :: 's' :: ':' :: '/' :: '/' :: appendDefaultPort host := by
    unfold proxyUrl
    simp
  rw [hurl]
  generalize appendDefaultPort host = hostAndPort
  unfold isPlain
  simp [List.isPrefixOf]

theorem Inv.proxyConnect (hconsistent : Consistent urls) (h : Inv urls s) {host : List Char}
    (hurl : proxyUrl host ∈ urls) (outcomes : List AttemptOutcome) :
    Inv urls (s.proxyConnect true host outcomes) := by
  have hplain := isPlain_proxyUrl host
  simp only [TlsRun.proxyConnect, getCachedTlsType, getCachedTlsAcceptInvalidCert, hplain]
  split
  · exact Inv.rustls hconsistent hurl hplain _ outcomes h (h.justified hurl hplain)
  · exact Inv.nativetls hconsistent hurl hplain h (h.justified hurl hplain) outcomes
  · exact h

/-- Without the fallback every attempt verifies. -/
def AllVerify (s : TlsRun) : Prop := ∀ a ∈ s.attempts, a.dangerAcceptInvalidCert = false

theorem AllVerify.attempt (h : AllVerify s) (url : Url) (tlsType : TlsType)
    (outcome : AttemptOutcome) : AllVerify (s.attempt url tlsType false outcome) := by
  intro a ha
  obtain ha | ha := List.mem_append.mp ha
  · exact h a ha
  · rw [List.mem_singleton.mp ha]

theorem AllVerify.upsertTlsCache (h : AllVerify s) (url : Url) (tlsType : TlsType)
    (dangerAcceptInvalidCert : Bool) :
    AllVerify (s.upsertTlsCache url tlsType dangerAcceptInvalidCert) := by
  unfold TlsRun.upsertTlsCache
  split
  · exact h
  · exact h

theorem AllVerify.tryConnect (url : Url) (isTlsTypeCached : Bool)
    (outcomes : List AttemptOutcome) : ∀ {tlsType s}, AllVerify s →
      AllVerify (tryConnect url isTlsTypeCached (some false) outcomes tlsType (some false) s) := by
  induction outcomes with
  | nil => exact id
  | cons outcome outcomes ih =>
      intro tlsType s h
      have hattempt := h.attempt url tlsType outcome
      cases outcome with
      | connected => exact hattempt.upsertTlsCache url tlsType false
      | timedOut => exact hattempt
      | failed =>
          cases tlsType with
          | plain => exact hattempt
          | nativeTls => exact hattempt
          | rustls =>
              cases isTlsTypeCached with
              | true => exact hattempt
              | false => exact ih hattempt

theorem AllVerify.nativetls (h : AllVerify s) (url : Url) (outcomes : List AttemptOutcome) :
    AllVerify (httpsConnectNativetlsWrapDanger url (some false) s outcomes) := by
  cases outcomes with
  | nil => exact h
  | cons outcome outcomes =>
      have hattempt := h.attempt url .nativeTls outcome
      cases outcome with
      | connected => exact hattempt.upsertTlsCache url .nativeTls false
      | timedOut => exact hattempt
      | failed => exact hattempt

theorem AllVerify.rustls (h : AllVerify s) (url : Url) (isTlsTypeCached : Bool)
    (outcomes : List AttemptOutcome) :
    AllVerify (httpsConnectRustlsWrapDanger url isTlsTypeCached (some false) outcomes
      (some false) s) := by
  cases outcomes with
  | nil => exact h
  | cons outcome outcomes =>
      have hattempt := h.attempt url .rustls outcome
      cases outcome with
      | connected => exact hattempt.upsertTlsCache url .rustls false
      | timedOut => exact hattempt
      | failed =>
          cases isTlsTypeCached with
          | true => exact hattempt
          | false => exact hattempt.nativetls url outcomes

theorem AllVerify.step (h : AllVerify s) {connect : TlsConnect} {s' : TlsRun}
    (hstep : s.step false connect = some s') : AllVerify s' := by
  cases connect with
  | webSocket url outcomes =>
      cases hstep
      exact h.tryConnect url _ outcomes
  | httpsProxy host outcomes =>
      cases hstep
      simp only [TlsRun.proxyConnect, getCachedTlsAcceptInvalidCert]
      split
      · exact h.rustls _ _ outcomes
      · exact h.nativetls _ outcomes
      · exact h

theorem noDowngrade_of_allVerify (h : AllVerify s) (allow : Bool) :
    NoDowngrade allow s.attempts where
  refused := fun _ => h
  failedBefore := by
    rintro before a after hattempts hoff
    rw [h a (hattempts ▸ List.mem_append_right _ List.mem_cons_self)] at hoff
    cases hoff
  neverVerified := by
    rintro before a after hattempts hoff
    rw [h a (hattempts ▸ List.mem_append_right _ List.mem_cons_self)] at hoff
    cases hoff

theorem Inv.noDowngrade (h : Inv urls s) : NoDowngrade true s.attempts where
  refused := nofun
  failedBefore := fun before a after hattempts hoff => (h.off before a after hattempts hoff).1
  neverVerified := fun before a after hattempts hoff => (h.off before a after hattempts hoff).2

theorem inv_of_reach (hconsistent : Consistent urls)
    (h : (system true).Reach (fun _ connect => connect.url ∈ urls) s) : Inv urls s := by
  refine h.invariant (inv_new urls) ?_
  intro s connect s' hs hurl hstep
  cases connect with
  | webSocket url outcomes =>
      cases hstep
      exact Inv.wsConnect hconsistent hs hurl outcomes
  | httpsProxy host outcomes =>
      cases hstep
      exact Inv.proxyConnect hconsistent hs hurl outcomes

/-- The connections that downgrade the server of `v`, when it shares its key with `u`. -/
def sharedKeyRun (u v : Url) : List TlsConnect :=
  [.webSocket u [.failed, .connected], .webSocket v [.connected]]

theorem attempts_sharedKeyRun {u v : Url} (hu : isPlain u = false) (hv : isPlain v = false)
    (hkey : getDomainAndPortFromUrl u = getDomainAndPortFromUrl v) :
    ∃ s, (system true).run (sharedKeyRun u v) = some s ∧ s.attempts =
      [⟨u, .rustls, false, .failed⟩, ⟨u, .rustls, true, .connected⟩] ++
        ⟨v, .rustls, true, .connected⟩ :: [] := by
  refine ⟨_, rfl, ?_⟩
  simp [wsConnect, getCachedTlsType, getCachedTlsAcceptInvalidCert, tryConnect, upsertTlsCache,
    attempt, system, new, hu, hv, hkey]

/-- The connections that downgrade a verified server, when `v` has another key for it. -/
def otherKeyRun (u v : Url) : List TlsConnect :=
  [.webSocket u [.connected], .webSocket v [.failed, .connected]]

theorem attempts_otherKeyRun {u v : Url} (hu : isPlain u = false) (hv : isPlain v = false)
    (hkey : getDomainAndPortFromUrl u ≠ getDomainAndPortFromUrl v) :
    ∃ s, (system true).run (otherKeyRun u v) = some s ∧ s.attempts =
      [⟨u, .rustls, false, .connected⟩, ⟨v, .rustls, false, .failed⟩] ++
        ⟨v, .rustls, true, .connected⟩ :: [] := by
  refine ⟨_, rfl, ?_⟩
  simp [wsConnect, getCachedTlsType, getCachedTlsAcceptInvalidCert, tryConnect, upsertTlsCache,
    attempt, system, new, hu, hv, hkey.symm]

theorem follows_of_urls {connects : List TlsConnect}
    (hurls : ∀ connect ∈ connects, connect.url ∈ urls) (t : TlsRun) :
    (system true).Follows (fun _ connect => connect.url ∈ urls) t connects := by
  induction connects generalizing t with
  | nil => trivial
  | cons connect connects ih =>
      refine ⟨hurls connect List.mem_cons_self, ?_⟩
      intro t' _
      exact ih (fun c hc => hurls c (List.mem_cons_of_mem _ hc)) t'

/-- One key for two servers: what is cached for `u` is read for `v`. -/
theorem serverOf_eq_of_noDowngrade {u v : Url} (hu : u ∈ urls) (hv : v ∈ urls)
    (hplainU : isPlain u = false) (hplainV : isPlain v = false)
    (h : ∀ s, (system true).Reach (fun _ connect => connect.url ∈ urls) s →
      NoDowngrade true s.attempts)
    (hkey : getDomainAndPortFromUrl u = getDomainAndPortFromUrl v) : serverOf u = serverOf v := by
  obtain ⟨s, hrun, hattempts⟩ := attempts_sharedKeyRun hplainU hplainV hkey
  have hurls : ∀ connect ∈ sharedKeyRun u v, connect.url ∈ urls := by
    simp [sharedKeyRun, TlsConnect.url, hu, hv]
  have hreach := TSys.reach_of_run _ (follows_of_urls hurls _) hrun
  obtain ⟨b, hb, hserver, -⟩ := (h s hreach).failedBefore _ _ _ hattempts rfl
  have hurl : b.url = u := by
    simp only [List.mem_cons, List.not_mem_nil, or_false] at hb
    obtain rfl | rfl := hb <;> rfl
  rw [← hurl]
  exact hserver

/-- Two keys for one server: what is cached for `u` is not read for `v`. -/
theorem key_eq_of_noDowngrade {u v : Url} (hu : u ∈ urls) (hv : v ∈ urls)
    (hplainU : isPlain u = false) (hplainV : isPlain v = false)
    (h : ∀ s, (system true).Reach (fun _ connect => connect.url ∈ urls) s →
      NoDowngrade true s.attempts)
    (hserver : serverOf u = serverOf v) :
    getDomainAndPortFromUrl u = getDomainAndPortFromUrl v := by
  by_contra hkey
  obtain ⟨s, hrun, hattempts⟩ := attempts_otherKeyRun hplainU hplainV hkey
  have hurls : ∀ connect ∈ otherKeyRun u v, connect.url ∈ urls := by
    simp [otherKeyRun, TlsConnect.url, hu, hv]
  have hreach := TSys.reach_of_run _ (follows_of_urls hurls _) hrun
  refine (h s hreach).neverVerified _ _ _ hattempts rfl ⟨_, List.mem_cons_self, hserver, ?_, rfl⟩
  exact ⟨nofun, rfl⟩

/-- Connections to a set of URLs never downgrade a server, in any run, if and only if the
fallback is not allowed or the URLs have the same key exactly when they have the same
server. -/
theorem noDowngrade_iff (allow : Bool) (urls : Set Url) :
    (∀ s, (system allow).Reach (fun _ connect => connect.url ∈ urls) s →
      NoDowngrade allow s.attempts) ↔ allow = false ∨ Consistent urls := by
  cases allow with
  | false =>
      refine ⟨fun _ => .inl rfl, fun _ s hreach => noDowngrade_of_allVerify ?_ false⟩
      have hinit : AllVerify (system false).init := by simp [AllVerify, system, new]
      exact hreach.invariant hinit (fun _ _ _ hs _ hstep => hs.step hstep)
  | true =>
      constructor
      · intro h
        refine .inr (fun u hu v hv hplainU hplainV => ⟨?_, ?_⟩)
        · exact serverOf_eq_of_noDowngrade hu hv hplainU hplainV h
        · exact key_eq_of_noDowngrade hu hv hplainU hplainV h
      · rintro (hallow | hconsistent) s hreach
        · cases hallow
        · exact (inv_of_reach hconsistent hreach).noDowngrade

/-- A server whose path names another one. -/
def otherServer : Url := "wss://relay.example/x@api.example".toList

def cachedServer : Url := "wss://api.example/ws".toList

/-- An `@` in the path makes the failure of one server turn off the verification for another. -/
theorem downgraded_by_path :
    ¬ ∀ allow s, (system allow).Reach (fun _ _ => True) s → NoDowngrade allow s.attempts := by
  intro hall
  have hu : isPlain otherServer = false := by decide +kernel
  have hv : isPlain cachedServer = false := by decide +kernel
  have hkey : getDomainAndPortFromUrl otherServer = getDomainAndPortFromUrl cachedServer := by
    decide +kernel
  have hserver : serverOf otherServer ≠ serverOf cachedServer := by decide +kernel
  have hall' : ∀ s, (system true).Reach (fun _ connect => connect.url ∈ Set.univ) s →
      NoDowngrade true s.attempts :=
    fun s hreach => hall true s (hreach.mono (fun _ _ _ => trivial))
  exact hserver (serverOf_eq_of_noDowngrade (Set.mem_univ _) (Set.mem_univ _) hu hv hall' hkey)

end TlsRun

end HbbCommon.Connect
