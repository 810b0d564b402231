import HbbCommon.Config.Updates
import HbbCommon.Config.Logic.Caches

/-!
# Revoked entries stay out

An update reads the list in one section and writes it back in another. What a revocation takes
out in between comes back, so the invariant speaks of three places: the stored list, the cache, and
the lists that calls have read and not written yet. An entry is fresh when each revocation of it
that has returned is followed by the beginning of an addition.
-/

namespace HbbCommon.Config

open HbbCommon.Base

/-! ## Fresh entries -/

section

variable {α : Type} [DecidableEq α] {key : α → Bytes} {log : List (Event α)} {entry : α}

/-- An addition of the entry began after every revocation of it that has returned. -/
def Fresh (key : α → Bytes) (log : List (Event α)) (entry : α) : Prop :=
  ∀ before event after, log = before ++ event :: after → event.revokes key entry = true →
    Event.began entry ∈ after

theorem fresh_nil : Fresh key [] entry := by
  intro before event after hlog
  simp at hlog

/-- What an event at the end does to an entry. -/
theorem fresh_append_iff {last : Event α} :
    Fresh key (log ++ [last]) entry ↔
      last.revokes key entry = false ∧ (Fresh key log entry ∨ last = .began entry) := by
  constructor
  · intro h
    constructor
    · by_contra hrevokes
      have := h log last [] rfl (by simpa using hrevokes)
      simp at this
    · by_cases hlast : last = .began entry
      · exact .inr hlast
      · left
        intro before event after hlog hrevokes
        have hmem := h before event (after ++ [last]) (by simp [hlog]) hrevokes
        rcases List.mem_append.mp hmem with hmem | hmem
        · exact hmem
        · exact absurd (List.mem_singleton.mp hmem).symm hlast
  · rintro ⟨hrevokes, hfresh⟩ before event after hlog hevent
    rcases List.eq_nil_or_concat after with rfl | ⟨rest, e, rfl⟩
    · obtain ⟨-, hlast⟩ := List.append_inj' hlog rfl
      cases hlast
      rw [hrevokes] at hevent
      cases hevent
    · have hsplit : log ++ [last] = (before ++ event :: rest) ++ [e] := by
        rw [hlog]
        simp
      obtain ⟨hbefore, hlast⟩ := List.append_inj' hsplit rfl
      rw [List.concat_eq_append, List.mem_append]
      rcases hfresh with hfresh | rfl
      · exact .inl (hfresh before event rest hbefore hevent)
      · exact .inr (by simpa using hlast)

theorem Fresh.append {last : Event α} (h : Fresh key log entry)
    (hlast : last.revokes key entry = false) : Fresh key (log ++ [last]) entry :=
  fresh_append_iff.mpr ⟨hlast, .inl h⟩

theorem fresh_began : Fresh key (log ++ [.began entry]) entry :=
  fresh_append_iff.mpr ⟨rfl, .inr rfl⟩

def AllFresh (key : α → Bytes) (log : List (Event α)) (list : List α) : Prop :=
  ∀ entry ∈ list, Fresh key log entry

theorem AllFresh.append {last : Event α} {list : List α} (h : AllFresh key log list)
    (hlast : ∀ entry ∈ list, last.revokes key entry = false) :
    AllFresh key (log ++ [last]) list :=
  fun entry hentry => (h entry hentry).append (hlast entry hentry)

end

/-! ## One list -/

/-- What the updates of a list make of it. -/
structure Updates.Lawful {α : Type} (u : Updates α) : Prop where
  list : u.toDeviceList.Lawful
  mem_withEntry : ∀ entry list e, e ∈ u.withEntry entry list → e = entry ∨ e ∈ list
  mem_without : ∀ keys list e, e ∈ u.without keys list → e ∈ list ∧ u.key e ∉ keys

theorem deviceUpdates_lawful {libs : ConfigLibs} (h : libs.Lawful) :
    (deviceUpdates libs).Lawful where
  list := trustedDevices_lawful h
  mem_withEntry entry list e he := by
    rcases List.mem_append.mp he with he | he
    · exact .inr (List.mem_filter.mp he).1
    · exact .inl (List.mem_singleton.mp he)
  mem_without keys list e he := by
    obtain ⟨hlist, hkey⟩ := List.mem_filter.mp he
    have hkey : e.hwid ∉ keys := by simpa using hkey
    exact ⟨hlist, hkey⟩

theorem viewerUpdates_lawful {libs : ConfigLibs} (h : libs.Lawful) :
    (viewerUpdates libs).Lawful where
  list := pairedViewers_lawful h
  mem_withEntry entry list e he := by
    rcases List.mem_append.mp he with he | he
    · exact .inr (List.mem_filter.mp he).1
    · exact .inl (List.mem_singleton.mp he)
  mem_without keys list e he := by
    obtain ⟨hlist, hkey⟩ := List.mem_filter.mp he
    have hkey : e.signPk ∉ keys := by simpa using hkey
    exact ⟨hlist, hkey⟩

/-- The stored list, the cache and what calls may still bring in are fresh. -/
structure ListFresh {α : Type} [DecidableEq α] (u : Updates α) (crypt : Crypt)
    (log : List (Event α)) (pending : Nat → List α) (s : Statics) : Prop where
  stored : AllFresh u.key log (u.storedEntries crypt s.config2)
  cache : (u.cache s).2 = true → AllFresh u.key log (u.cache s).1
  pending : ∀ id, AllFresh u.key log (pending id)

section

variable {α : Type} [DecidableEq α] {u : Updates α} {crypt : Crypt} {now : Int64} {nonce : Nat}
  {log : List (Event α)} {pending pending' : Nat → List α} {s t : Statics} {op : ListOp α}
  {stage : Stage α} {list : List α} {id : Nat}

theorem ListFresh.untouched (h : ListFresh u crypt log pending s)
    (ht : u.toDeviceList.Untouched s t) : ListFresh u crypt log pending t where
  stored := by
    have hstored : u.storedEntries crypt t.config2 = u.storedEntries crypt s.config2 := by
      unfold DeviceList.storedEntries DeviceList.read
      rw [ht.2]
    rw [hstored]
    exact h.stored
  cache := by
    rw [ht.1]
    exact h.cache
  pending := h.pending

/-- An event that revokes nothing of what is there. -/
theorem ListFresh.append {last : Event α} (h : ListFresh u crypt log pending s)
    (hstored : ∀ e ∈ u.storedEntries crypt s.config2, last.revokes u.key e = false)
    (hcache : (u.cache s).2 = true → ∀ e ∈ (u.cache s).1, last.revokes u.key e = false)
    (hpending : ∀ id, ∀ e ∈ pending id, last.revokes u.key e = false) :
    ListFresh u crypt (log ++ [last]) pending s where
  stored := h.stored.append hstored
  cache hsynced := (h.cache hsynced).append (hcache hsynced)
  pending id := (h.pending id).append (hpending id)

/-- Only the pending entries of one call change. -/
theorem ListFresh.setPending (h : ListFresh u crypt log pending s)
    (hother : ∀ j, j ≠ id → pending' j = pending j) (hid : AllFresh u.key log (pending' id)) :
    ListFresh u crypt log pending' s where
  stored := h.stored
  cache := h.cache
  pending j := by
    by_cases hj : j = id
    · rw [hj]
      exact hid
    · rw [hother j hj]
      exact h.pending j

omit [DecidableEq α] in
/-- A list that is stored: it is refused for its size, or it is the stored list and the cache. -/
theorem set_places (now : Int64) (nonce : Nat) (hideal : crypt.Ideal) (hu : u.Lawful)
    (list : List α) (s : Statics) :
    (u.set crypt now nonce list s = s ∧
        (u.json.toString (u.keep now list)).utf8ByteSize > DeviceList.maxLen) ∨
      (u.storedEntries crypt (u.set crypt now nonce list s).config2 = u.keep now list ∧
        u.cache (u.set crypt now nonce list s) = (u.keep now list, true)) := by
  unfold DeviceList.set
  simp only
  split
  · rename_i hsize
    exact .inl ⟨rfl, hsize⟩
  · rename_i hsize
    right
    constructor
    · rw [DeviceList.writeStored, hu.list.config2_setCache, DeviceList.storedEntries,
        DeviceList.read_setStored _ hideal hu.list (Nat.not_lt.mp hsize)]
    · rw [DeviceList.writeStored, hu.list.cache_setCache]

omit [DecidableEq α] in
theorem mem_keep {e : α} (h : e ∈ u.keep now list) : e ∈ list := (List.mem_filter.mp h).1

/-- Fresh entries may be stored. -/
theorem ListFresh.set (hideal : crypt.Ideal) (hu : u.Lawful) (h : ListFresh u crypt log pending s)
    (hlist : AllFresh u.key log list) :
    ListFresh u crypt log pending (u.set crypt now nonce list s) := by
  rcases set_places now nonce hideal hu list s with
    ⟨hrefused, -⟩ | ⟨hstored, hcache⟩
  · rw [hrefused]
    exact h
  · constructor
    · rw [hstored]
      exact fun e he => hlist e (mem_keep he)
    · intro _
      rw [hcache]
      exact fun e he => hlist e (mem_keep he)
    · exact h.pending

theorem ListFresh.setCache (hu : u.Lawful) (h : ListFresh u crypt log pending s)
    (hlist : AllFresh u.key log list) :
    ListFresh u crypt log pending (u.setCache (list, true) s) where
  stored := by
    rw [hu.list.config2_setCache]
    exact h.stored
  cache _ := by
    rw [hu.list.cache_setCache]
    exact hlist
  pending := h.pending

/-- What a removal needs to take effect: its list is not refused for its size, or nothing that is
stored or cached has one of the keys. -/
def TakesEffect (u : Updates α) (crypt : Crypt) (now : Int64) (keys : List Bytes) (list : List α)
    (s : Statics) : Prop :=
  (u.json.toString (u.keep now (u.without keys list))).utf8ByteSize ≤ DeviceList.maxLen ∨
    (∀ e ∈ u.storedEntries crypt s.config2, u.key e ∉ keys) ∧
      ((u.cache s).2 = true → ∀ e ∈ (u.cache s).1, u.key e ∉ keys)

/-- A removal that is about to return takes effect, and no other call may bring an entry with one
of the keys back. -/
def RevokesAlone (u : Updates α) (crypt : Crypt) (now : Int64) (id : Nat)
    (pending : Nat → List α) (op : ListOp α) (stage : Stage α) (s : Statics) : Prop :=
  match op, stage with
  | .remove keys, .writing list =>
      TakesEffect u crypt now keys list s ∧ ∀ j, j ≠ id → ∀ e ∈ pending j, u.key e ∉ keys
  | _, _ => True

omit [DecidableEq α] in
theorem mem_change (hu : u.Lawful) {e : α} (h : e ∈ op.change u list) :
    e ∈ list ∨ op = .add e := by
  cases op with
  | add entry =>
      rcases hu.mem_withEntry entry list e h with rfl | h
      · exact .inr rfl
      · exact .inl h
  | remove keys => exact .inl (hu.mem_without keys list e h).1

omit [DecidableEq α] in
/-- The entries that a call itself adds are pending at all its stages. -/
theorem mem_pending_of_add {e : α} (h : op = .add e) : e ∈ op.pending u stage := by
  subst h
  exact List.mem_append_left _ (List.mem_singleton.mpr rfl)

omit [DecidableEq α] in
theorem mem_pending_iff {e : α} :
    e ∈ op.pending u stage ↔ op = .add e ∨ e ∈ (match stage with
      | .start | .reading => []
      | .saving kept | .caching kept => kept
      | .writing list => op.change u list) := by
  unfold ListOp.pending
  rw [List.mem_append]
  refine or_congr_left ?_
  cases op with
  | add entry => simp [eq_comm]
  | remove keys => simp

/-- A section of a call keeps everything fresh. -/
theorem ListFresh.next (hideal : crypt.Ideal) (hu : u.Lawful)
    (h : ListFresh u crypt log pending s) (hid : pending id = op.pending u stage)
    (halone : RevokesAlone u crypt now id pending op stage s) {next : Option (Stage α)}
    (hstep : stage.next u crypt now nonce op s = (next, t))
    (hother : ∀ j, j ≠ id → pending' j = pending j)
    (hnext : pending' id = (next.map (op.pending u)).getD []) :
    ListFresh u crypt (if next.isNone then log ++ op.returned else log) pending' t := by
  obtain rfl : next = (stage.next u crypt now nonce op s).1 := (congrArg Prod.fst hstep).symm
  obtain rfl : t = (stage.next u crypt now nonce op s).2 := (congrArg Prod.snd hstep).symm
  clear hstep
  have hpending : AllFresh u.key log (op.pending u stage) := by
    rw [← hid]
    exact h.pending id
  -- what is added is fresh, and so is a changed list of fresh entries
  have hadd : ∀ e, op = .add e → Fresh u.key log e :=
    fun e he => hpending e (mem_pending_of_add he)
  have hlists : ∀ stage', (∀ e ∈ (match stage' with
      | .start | .reading => []
      | .saving kept | .caching kept => kept
      | .writing list => op.change u list), Fresh u.key log e) →
      AllFresh u.key log (op.pending u stage') := by
    intro stage' hstage e he
    rcases mem_pending_iff.mp he with he | he
    · exact hadd e he
    · exact hstage e he
  have hchange : ∀ list, AllFresh u.key log list → AllFresh u.key log (op.change u list) := by
    intro list hlist e he
    rcases mem_change hu he with he | he
    · exact hlist e he
    · exact hadd e he
  cases stage with
  | start =>
      refine h.setPending hother ?_
      rw [hnext]
      refine hlists (if (u.cache s).2 then .writing (u.cache s).1 else .reading) ?_
      by_cases hsynced : (u.cache s).2 = true
      · rw [if_pos hsynced]
        exact hchange _ (h.cache hsynced)
      · rw [if_neg hsynced]
        exact fun e he => absurd he (List.not_mem_nil)
  | reading =>
      cases hread : u.read crypt s.config2 with
      | none =>
          simp only [Stage.next, hread] at hnext ⊢
          refine h.setPending hother ?_
          rw [hnext]
          exact hlists (.writing []) (hchange [] (fun e he => absurd he (List.not_mem_nil)))
      | some read =>
          obtain ⟨list, store⟩ := read
          simp only [Stage.next, hread] at hnext ⊢
          refine h.setPending hother ?_
          rw [hnext]
          have hkept : AllFresh u.key log (u.keep now list) := by
            intro e he
            refine h.stored e ?_
            unfold DeviceList.storedEntries
            rw [hread]
            exact mem_keep he
          split
          · exact hlists (.saving _) hkept
          · exact hlists (.caching _) hkept
  | saving kept =>
      have hkept : AllFresh u.key log kept :=
        fun e he => hpending e (mem_pending_iff.mpr (.inr he))
      refine (h.set hideal hu hkept).setPending hother ?_
      rw [hnext]
      exact hlists (.caching kept) hkept
  | caching kept =>
      have hkept : AllFresh u.key log kept :=
        fun e he => hpending e (mem_pending_iff.mpr (.inr he))
      refine (h.setCache hu hkept).setPending hother ?_
      rw [hnext]
      exact hlists (.writing kept) (hchange kept hkept)
  | writing list =>
      have hlist : AllFresh u.key log (op.change u list) :=
        fun e he => hpending e (mem_pending_iff.mpr (.inr he))
      have hset : ListFresh u crypt log pending (u.set crypt now nonce (op.change u list) s) :=
        h.set hideal hu hlist
      have hempty : pending' id = [] := hnext
      have hmoved : ListFresh u crypt log pending'
          (u.set crypt now nonce (op.change u list) s) := by
        refine hset.setPending hother ?_
        rw [hempty]
        exact fun e he => absurd he (List.not_mem_nil)
      cases op with
      | add entry =>
          show ListFresh u crypt (log ++ []) _ _
          rw [List.append_nil]
          exact hmoved
      | remove keys =>
          obtain ⟨heffect, hpendings⟩ := halone
          have hremoved : ∀ e ∈ u.keep now (u.without keys list), u.key e ∉ keys :=
            fun e he => (hu.mem_without keys list e (mem_keep he)).2
          -- the keys are in neither place once the list is stored
          have hplaces : (∀ e ∈ u.storedEntries crypt
                (u.set crypt now nonce (u.without keys list) s).config2, u.key e ∉ keys) ∧
              ((u.cache (u.set crypt now nonce (u.without keys list) s)).2 = true →
                ∀ e ∈ (u.cache (u.set crypt now nonce (u.without keys list) s)).1,
                  u.key e ∉ keys) := by
            rcases set_places now nonce hideal hu (u.without keys list) s with
              ⟨hrefused, hsize⟩ | ⟨hstored, hcache⟩
            · rw [hrefused]
              rcases heffect with hfits | hnothing
              · exact absurd hsize (Nat.not_lt.mpr hfits)
              · exact hnothing
            · rw [hstored, hcache]
              exact ⟨hremoved, fun _ => hremoved⟩
          refine hmoved.append ?_ ?_ ?_
          · intro e he
            simpa [Event.revokes] using hplaces.1 e he
          · intro hsynced e he
            simpa [Event.revokes] using hplaces.2 hsynced e he
          · intro j e he
            by_cases hj : j = id
            · rw [hj, hempty] at he
              exact absurd he (List.not_mem_nil)
            · rw [hother j hj] at he
              simpa [Event.revokes] using hpendings j hj e he

end

/-! ## The system -/

section

variable (libs : ConfigLibs) (settings : Settings)

def Task.devicePending : Task → List TrustedDevice
  | .device op stage => op.pending (deviceUpdates libs) stage
  | _ => []

def Task.viewerPending : Task → List PairedViewer
  | .viewer op stage => op.pending (viewerUpdates libs) stage
  | _ => []

namespace Updating

/-- The devices that a call may still bring in. -/
def devicePending (s : Updating) (id : Nat) : List TrustedDevice :=
  ((s.tasks.get? id).map (Task.devicePending libs)).getD []

def viewerPending (s : Updating) (id : Nat) : List PairedViewer :=
  ((s.tasks.get? id).map (Task.viewerPending libs)).getD []

/-- A revocation is about to return while no other call may bring back what it revokes, and a
removal takes effect. -/
def RevokesAlone (s : Updating) : Action → Prop
  | .runs id now nonces =>
      match s.tasks.get? id with
      | some (.device op stage) =>
          HbbCommon.Config.RevokesAlone (deviceUpdates libs) libs.crypt now id
            (s.devicePending libs) op stage s.statics
      | some (.viewer op stage) =>
          HbbCommon.Config.RevokesAlone (viewerUpdates libs) libs.crypt now id
            (s.viewerPending libs) op stage s.statics
      | some (.setOption k v) =>
          passphrase libs (setOption libs settings (nonces k) k v s.statics) ≠
            passphrase libs s.statics →
          ∀ j, j ≠ id → ∀ e ∈ s.viewerPending libs j,
            e ∉ (pairedViewers libs).storedEntries libs.crypt s.statics.config2
      | _ => True
  | _ => True

/-- Both lists are fresh. -/
structure NothingRevoked (s : Updating) : Prop where
  devices : ListFresh (deviceUpdates libs) libs.crypt s.devices (s.devicePending libs) s.statics
  viewers : ListFresh (viewerUpdates libs) libs.crypt s.viewers (s.viewerPending libs) s.statics

end Updating

end

section

variable {libs : ConfigLibs} {settings : Settings} {s t : Updating} {id : Nat} {task : Task}

/-- Clearing the viewers keeps everything fresh. -/
theorem ListFresh.cleared {log : List (Event PairedViewer)} {pending : Nat → List PairedViewer}
    {s t : Statics} (h : ListFresh (viewerUpdates libs) libs.crypt log pending s)
    (ht : Unpaired t) : ListFresh (viewerUpdates libs) libs.crypt log pending t where
  stored := by
    have hempty : (viewerUpdates libs).storedEntries libs.crypt t.config2 = [] := by
      rw [DeviceList.storedEntries, DeviceList.read_of_empty ht.viewers]
    rw [hempty]
    exact fun e he => absurd he (List.not_mem_nil)
  cache _ := by
    show AllFresh _ log t.pairedViewers.1
    rw [ht.cache]
    exact fun e he => absurd he (List.not_mem_nil)
  pending := h.pending

theorem OptionChange.untouched_devices {s t : Statics} (h : OptionChange s t) :
    (trustedDevices libs).Untouched s t := by
  rcases h with rfl | ⟨options, rfl | rfl⟩
  · exact .refl
  · exact ⟨rfl, rfl⟩
  · exact ⟨rfl, rfl⟩

theorem OptionChange.viewers (libs : ConfigLibs) {s t : Statics} (h : OptionChange s t) :
    (pairedViewers libs).Untouched s t ∨ Unpaired t := by
  rcases h with rfl | ⟨options, rfl | rfl⟩
  · exact .inl .refl
  · exact .inl ⟨rfl, rfl⟩
  · exact .inr ⟨rfl, rfl⟩

theorem OptionChange.listFresh {log : List (Event PairedViewer)}
    {pending : Nat → List PairedViewer} {s t : Statics} (h : OptionChange s t)
    (hs : ListFresh (viewerUpdates libs) libs.crypt log pending s) :
    ListFresh (viewerUpdates libs) libs.crypt log pending t := by
  rcases h.viewers libs with hsame | hcleared
  · exact hs.untouched hsame
  · exact hs.cleared hcleared

/-! ### Which calls are pending -/

theorem devicePending_insert (s : Updating) (id : Nat) (task : Task) (j : Nat) :
    Updating.devicePending libs { s with tasks := s.tasks.insert id task } j =
      if j = id then task.devicePending libs else s.devicePending libs j := by
  unfold Updating.devicePending
  rw [OrdMap.get?_insert]
  split <;> rfl

theorem viewerPending_insert (s : Updating) (id : Nat) (task : Task) (j : Nat) :
    Updating.viewerPending libs { s with tasks := s.tasks.insert id task } j =
      if j = id then task.viewerPending libs else s.viewerPending libs j := by
  unfold Updating.viewerPending
  rw [OrdMap.get?_insert]
  split <;> rfl

theorem devicePending_moveTo (s : Updating) (id : Nat) (task : Option Task) (j : Nat) :
    (s.moveTo id task).devicePending libs j =
      if j = id then (task.map (Task.devicePending libs)).getD [] else s.devicePending libs j := by
  unfold Updating.devicePending
  cases task with
  | none =>
      show (((s.tasks.erase id).get? j).map _).getD [] = _
      rw [OrdMap.get?_erase]
      split <;> rfl
  | some task =>
      show (((s.tasks.insert id task).get? j).map _).getD [] = _
      rw [OrdMap.get?_insert]
      split <;> rfl

theorem viewerPending_moveTo (s : Updating) (id : Nat) (task : Option Task) (j : Nat) :
    (s.moveTo id task).viewerPending libs j =
      if j = id then (task.map (Task.viewerPending libs)).getD [] else s.viewerPending libs j := by
  unfold Updating.viewerPending
  cases task with
  | none =>
      show (((s.tasks.erase id).get? j).map _).getD [] = _
      rw [OrdMap.get?_erase]
      split <;> rfl
  | some task =>
      show (((s.tasks.insert id task).get? j).map _).getD [] = _
      rw [OrdMap.get?_insert]
      split <;> rfl

/-! ### Steps -/

theorem allFresh_empty {α : Type} [DecidableEq α] {key : α → Bytes} {log : List (Event α)} :
    AllFresh key log [] :=
  fun _ he => absurd he (List.not_mem_nil)

/-- A section on one list does not touch the other. -/
theorem untouched_next {α β : Type} {u : Updates α} {l' : DeviceList β} {crypt : Crypt}
    {now : Int64} {nonce : Nat} (hapart : u.Apart l') (op : ListOp α) (stage : Stage α)
    (s : Statics) : l'.Untouched s (stage.next u crypt now nonce op s).2 := by
  cases stage with
  | start => exact .refl
  | reading =>
      have hsame : (Stage.reading.next u crypt now nonce op s).2 = s := by
        simp only [Stage.next]
        split <;> rfl
      rw [hsame]
      exact .refl
  | saving kept => exact DeviceList.untouched_set hapart kept s
  | caching kept =>
      constructor
      · exact hapart.cache_setCache _ s
      · show l'.stored (u.setCache (kept, true) s).config2 = l'.stored s.config2
        rw [hapart.config2_setCache]
  | writing list => exact DeviceList.untouched_set hapart _ s

namespace Updating

/-- A call begins; what it may bring in is fresh. -/
theorem NothingRevoked.call (h : s.NothingRevoked libs) (hcall : Updating.call id task s = some t)
    (hdevices : AllFresh (deviceUpdates libs).key s.devices (task.devicePending libs))
    (hviewers : AllFresh (viewerUpdates libs).key s.viewers (task.viewerPending libs)) :
    t.NothingRevoked libs := by
  unfold Updating.call at hcall
  split at hcall
  · cases hcall
  · cases hcall
    constructor
    · refine h.devices.setPending (fun j (hj : j ≠ id) => ?_) ?_
      · rw [devicePending_insert, if_neg hj]
      · rw [devicePending_insert, if_pos rfl]
        exact hdevices
    · refine h.viewers.setPending (fun j (hj : j ≠ id) => ?_) ?_
      · rw [viewerPending_insert, if_neg hj]
      · rw [viewerPending_insert, if_pos rfl]
        exact hviewers

theorem NothingRevoked.beganDevice (h : s.NothingRevoked libs) (device : TrustedDevice) :
    Updating.NothingRevoked libs { s with devices := s.devices ++ [.began device] } where
  devices := h.devices.append (fun _ _ => rfl) (fun _ _ _ => rfl) (fun _ _ _ => rfl)
  viewers := h.viewers

theorem NothingRevoked.beganViewer (h : s.NothingRevoked libs) (viewer : PairedViewer) :
    Updating.NothingRevoked libs { s with viewers := s.viewers ++ [.began viewer] } where
  devices := h.devices
  viewers := h.viewers.append (fun _ _ => rfl) (fun _ _ _ => rfl) (fun _ _ _ => rfl)

theorem moveTo_same (id : Nat) (next : Option Task) (s : Updating) :
    (s.moveTo id next).statics = s.statics ∧ (s.moveTo id next).devices = s.devices ∧
      (s.moveTo id next).viewers = s.viewers := by
  cases next <;> exact ⟨rfl, rfl, rfl⟩

/-- A call that is on neither list has nothing pending. -/
theorem NothingRevoked.moveTo_other {next : Option Task} (h : s.NothingRevoked libs)
    (hdevices : (next.map (Task.devicePending libs)).getD [] = [])
    (hviewers : (next.map (Task.viewerPending libs)).getD [] = []) :
    (s.moveTo id next).NothingRevoked libs := by
  obtain ⟨hstatics, hdevicesLog, hviewersLog⟩ := moveTo_same id next s
  constructor
  · rw [hstatics, hdevicesLog]
    refine h.devices.setPending (fun j (hj : j ≠ id) => ?_) ?_
    · rw [devicePending_moveTo, if_neg hj]
    · rw [devicePending_moveTo, if_pos rfl, hdevices]
      exact allFresh_empty
  · rw [hstatics, hviewersLog]
    refine h.viewers.setPending (fun j (hj : j ≠ id) => ?_) ?_
    · rw [viewerPending_moveTo, if_neg hj]
    · rw [viewerPending_moveTo, if_pos rfl, hviewers]
      exact allFresh_empty

variable {now : Int64} {nonces : String → Nat}

theorem NothingRevoked.device {op : ListOp TrustedDevice} {stage : Stage TrustedDevice}
    (hlibs : libs.Lawful) (h : s.NothingRevoked libs)
    (hget : s.tasks.get? id = some (.device op stage))
    (halone : HbbCommon.Config.RevokesAlone (deviceUpdates libs) libs.crypt now id
      (s.devicePending libs) op stage s.statics) :
    (s.runSection libs settings id now nonces (.device op stage)).NothingRevoked libs := by
  have hid : s.devicePending libs id = op.pending (deviceUpdates libs) stage := by
    rw [Updating.devicePending, hget]
    rfl
  have huntouched : (pairedViewers libs).Untouched s.statics
      (stage.next (deviceUpdates libs) libs.crypt now (nonces "") op s.statics).2 :=
    untouched_next devices_apart op stage s.statics
  have hrun : s.runSection libs settings id now nonces (.device op stage) =
      Updating.moveTo id ((stage.next (deviceUpdates libs) libs.crypt now (nonces "") op
        s.statics).1.map (.device op)) { s with
          statics := (stage.next (deviceUpdates libs) libs.crypt now (nonces "") op s.statics).2
          devices := if (stage.next (deviceUpdates libs) libs.crypt now (nonces "") op
            s.statics).1.isNone then s.devices ++ op.returned else s.devices } := rfl
  rw [hrun]
  cases houtcome : stage.next (deviceUpdates libs) libs.crypt now (nonces "") op s.statics with
  | mk next statics =>
      rw [houtcome] at huntouched
      obtain ⟨hstatics, hdevices, hviewers⟩ := moveTo_same id (next.map (Task.device op))
        { s with
          statics
          devices := if next.isNone then s.devices ++ op.returned else s.devices }
      constructor
      · rw [hstatics, hdevices]
        refine h.devices.next hlibs.crypt (deviceUpdates_lawful hlibs) hid halone houtcome
          (fun j hj => ?_) ?_
        · rw [devicePending_moveTo, if_neg hj]
          rfl
        · rw [devicePending_moveTo, if_pos rfl]
          cases next <;> rfl
      · rw [hstatics, hviewers]
        refine (h.viewers.untouched huntouched).setPending (fun j (hj : j ≠ id) => ?_) ?_
        · rw [viewerPending_moveTo, if_neg hj]
          rfl
        · rw [viewerPending_moveTo, if_pos rfl]
          cases next <;> exact allFresh_empty

theorem NothingRevoked.viewer {op : ListOp PairedViewer} {stage : Stage PairedViewer}
    (hlibs : libs.Lawful) (h : s.NothingRevoked libs)
    (hget : s.tasks.get? id = some (.viewer op stage))
    (halone : HbbCommon.Config.RevokesAlone (viewerUpdates libs) libs.crypt now id
      (s.viewerPending libs) op stage s.statics) :
    (s.runSection libs settings id now nonces (.viewer op stage)).NothingRevoked libs := by
  have hid : s.viewerPending libs id = op.pending (viewerUpdates libs) stage := by
    rw [Updating.viewerPending, hget]
    rfl
  have huntouched : (trustedDevices libs).Untouched s.statics
      (stage.next (viewerUpdates libs) libs.crypt now (nonces "") op s.statics).2 :=
    untouched_next viewers_apart op stage s.statics
  have hrun : s.runSection libs settings id now nonces (.viewer op stage) =
      Updating.moveTo id ((stage.next (viewerUpdates libs) libs.crypt now (nonces "") op
        s.statics).1.map (.viewer op)) { s with
          statics := (stage.next (viewerUpdates libs) libs.crypt now (nonces "") op s.statics).2
          viewers := if (stage.next (viewerUpdates libs) libs.crypt now (nonces "") op
            s.statics).1.isNone then s.viewers ++ op.returned else s.viewers } := rfl
  rw [hrun]
  cases houtcome : stage.next (viewerUpdates libs) libs.crypt now (nonces "") op s.statics with
  | mk next statics =>
      rw [houtcome] at huntouched
      obtain ⟨hstatics, hdevices, hviewers⟩ := moveTo_same id (next.map (Task.viewer op))
        { s with
          statics
          viewers := if next.isNone then s.viewers ++ op.returned else s.viewers }
      constructor
      · rw [hstatics, hdevices]
        refine (h.devices.untouched huntouched).setPending (fun j (hj : j ≠ id) => ?_) ?_
        · rw [devicePending_moveTo, if_neg hj]
          rfl
        · rw [devicePending_moveTo, if_pos rfl]
          cases next <;> exact allFresh_empty
      · rw [hstatics, hviewers]
        refine h.viewers.next hlibs.crypt (viewerUpdates_lawful hlibs) hid halone houtcome
          (fun j hj => ?_) ?_
        · rw [viewerPending_moveTo, if_neg hj]
          rfl
        · rw [viewerPending_moveTo, if_pos rfl]
          cases next <;> rfl

/-- A change of the options keeps everything fresh. -/
theorem NothingRevoked.optionChange {statics : Statics} (h : s.NothingRevoked libs)
    (hchange : OptionChange s.statics statics) :
    Updating.NothingRevoked libs { s with statics } where
  devices := h.devices.untouched hchange.untouched_devices
  viewers := hchange.listFresh h.viewers

theorem NothingRevoked.setOption {k v : String} (h : s.NothingRevoked libs)
    (hget : s.tasks.get? id = some (.setOption k v))
    (halone : passphrase libs (HbbCommon.Config.setOption libs settings (nonces k) k v s.statics) ≠
        passphrase libs s.statics →
      ∀ j, j ≠ id → ∀ e ∈ s.viewerPending libs j,
        e ∉ (pairedViewers libs).storedEntries libs.crypt s.statics.config2) :
    (s.runSection libs settings id now nonces (.setOption k v)).NothingRevoked libs := by
  have hchange : OptionChange s.statics
      (HbbCommon.Config.setOption libs settings (nonces k) k v s.statics) :=
    setOption_change _ _ _ _
  have hset := h.optionChange hchange
  unfold Updating.runSection
  simp only
  split
  · rename_i hchanged
    -- a changed passphrase has cleared the viewers
    have hunpaired : Unpaired
        (HbbCommon.Config.setOption libs settings (nonces k) k v s.statics) := by
      rcases setOption_outcome libs settings (nonces k) k v s.statics with hsame | ⟨-, hcleared⟩
      · exact absurd (passphrase_congr hsame.stored) hchanged
      · exact hcleared
    refine NothingRevoked.moveTo_other ⟨hset.devices, ?_⟩ rfl rfl
    refine hset.viewers.append ?_ ?_ ?_
    · intro e he
      have hempty : (viewerUpdates libs).storedEntries libs.crypt
          (HbbCommon.Config.setOption libs settings (nonces k) k v s.statics).config2 = [] := by
        rw [DeviceList.storedEntries, DeviceList.read_of_empty hunpaired.viewers]
      rw [hempty] at he
      exact absurd he (List.not_mem_nil)
    · intro _ e he
      have he : e ∈ (HbbCommon.Config.setOption libs settings (nonces k) k v
        s.statics).pairedViewers.1 := he
      rw [hunpaired.cache] at he
      exact absurd he (List.not_mem_nil)
    · intro j e he
      by_cases hj : j = id
      · have hnone : s.viewerPending libs j = [] := by
          rw [Updating.viewerPending, hj, hget]
          rfl
        have he : e ∈ s.viewerPending libs j := he
        rw [hnone] at he
        exact absurd he (List.not_mem_nil)
      · simpa [Event.revokes] using halone hchanged j hj e he
  · exact hset.moveTo_other rfl rfl

/-- Every step keeps everything fresh. -/
theorem NothingRevoked.step {action : Action} (hlibs : libs.Lawful) (h : s.NothingRevoked libs)
    (halone : s.RevokesAlone libs settings action)
    (hstep : s.step libs settings action = some t) : t.NothingRevoked libs := by
  cases action with
  | addTrustedDevice id device =>
      refine (h.beganDevice device).call hstep ?_ allFresh_empty
      intro e he
      rw [List.mem_singleton.mp he]
      exact fresh_began
  | removeTrustedDevices id hwids => exact h.call hstep allFresh_empty allFresh_empty
  | addPairedViewer id viewer =>
      unfold Updating.step at hstep
      simp only at hstep
      split at hstep
      · cases hstep
        exact h
      · refine (h.beganViewer viewer).call hstep allFresh_empty ?_
        intro e he
        rw [List.mem_singleton.mp he]
        exact fresh_began
  | removePairedViewers id signPks => exact h.call hstep allFresh_empty allFresh_empty
  | setOption id k v => exact h.call hstep allFresh_empty allFresh_empty
  | setOptions id v => exact h.call hstep allFresh_empty allFresh_empty
  | runs id now nonces =>
      obtain ⟨task, hget, rfl⟩ := Option.map_eq_some_iff.mp hstep
      unfold Updating.RevokesAlone at halone
      simp only [hget] at halone
      cases task with
      | device op stage => exact h.device hlibs hget halone
      | viewer op stage => exact h.viewer hlibs hget halone
      | setOption k v => exact h.setOption hget halone
      | setOptions v previous =>
          cases previous with
          | none =>
              show (Updating.moveTo id (some (.setOptions v (some _))) s).NothingRevoked libs
              exact h.moveTo_other rfl rfl
          | some previous =>
              have hset := h.optionChange (writeOptions_change libs
                (settleOptions libs settings nonces v previous) previous s.statics)
              show (Updating.moveTo id none _).NothingRevoked libs
              exact hset.moveTo_other rfl rfl

end Updating

/-- Where revocations return while no other call may bring back what they revoke, an entry that was
revoked is stored only if its addition began after the revocation returned. -/
theorem revoked_stays_out (hlibs : libs.Lawful) {statics : Statics}
    (h : (updating libs settings statics).Reach (Updating.RevokesAlone libs settings) s) :
    (∀ device ∈ (trustedDevices libs).storedEntries libs.crypt s.statics.config2,
        Fresh (fun d => d.hwid) s.devices device) ∧
      ∀ viewer ∈ (pairedViewers libs).storedEntries libs.crypt s.statics.config2,
        Fresh (fun d => d.signPk) s.viewers viewer := by
  have hall : s.NothingRevoked libs := by
    refine h.invariant ?_ (fun s a t hs halone hstep => hs.step hlibs halone hstep)
    constructor
    · exact ⟨fun _ _ => fresh_nil, fun _ _ _ => fresh_nil, fun _ _ _ => fresh_nil⟩
    · exact ⟨fun _ _ => fresh_nil, fun _ _ _ => fresh_nil, fun _ _ _ => fresh_nil⟩
  exact ⟨hall.devices.stored, hall.viewers.stored⟩

/-- Only one call is under way, and the list that a removal stores is not refused for its size. -/
def Updating.solo (libs : ConfigLibs) (s : Updating) : Action → Bool
  | .runs id now _ =>
      s.tasks.entries.all (fun e => e.1 = id) &&
      match s.tasks.get? id with
      | some (.device (.remove keys) (.writing list)) =>
          ((deviceUpdates libs).json.toString ((deviceUpdates libs).keep now
            (withoutDevices keys list))).utf8ByteSize ≤ DeviceList.maxLen
      | some (.viewer (.remove keys) (.writing list)) =>
          ((viewerUpdates libs).json.toString ((viewerUpdates libs).keep now
            (withoutViewers keys list))).utf8ByteSize ≤ DeviceList.maxLen
      | _ => true
  | _ => true

/-- Nothing else is pending, and a removal's list is not refused. -/
theorem revokesAlone_of_fits {α : Type} {u : Updates α} {crypt : Crypt} {now : Int64} {id : Nat}
    {pending : Nat → List α} {op : ListOp α} {stage : Stage α} {s : Statics}
    (hnone : ∀ j, j ≠ id → pending j = [])
    (hfits : ∀ keys list, op = .remove keys → stage = .writing list →
      (u.json.toString (u.keep now (u.without keys list))).utf8ByteSize ≤ DeviceList.maxLen) :
    RevokesAlone u crypt now id pending op stage s := by
  unfold RevokesAlone
  split
  · refine ⟨.inl (hfits _ _ rfl rfl), fun j hj e he => ?_⟩
    rw [hnone j hj] at he
    exact absurd he (List.not_mem_nil)
  · trivial

/-- Calls one at a time revoke alone. -/
theorem revokesAlone_of_solo {action : Action} (h : s.solo libs action = true) :
    s.RevokesAlone libs settings action := by
  cases action with
  | runs id now nonces =>
      simp only [Updating.solo, Bool.and_eq_true, List.all_eq_true, decide_eq_true_eq] at h
      obtain ⟨honly, hfits⟩ := h
      have hnone : ∀ j, j ≠ id → s.tasks.get? j = none := by
        intro j hj
        cases hget : s.tasks.get? j with
        | none => rfl
        | some task => exact absurd (honly _ (OrdMap.mem_entries_iff.mpr hget)) hj
      have hdevices : ∀ j, j ≠ id → s.devicePending libs j = [] := by
        intro j hj
        rw [Updating.devicePending, hnone j hj]
        rfl
      have hviewers : ∀ j, j ≠ id → s.viewerPending libs j = [] := by
        intro j hj
        rw [Updating.viewerPending, hnone j hj]
        rfl
      simp only [Updating.RevokesAlone]
      cases hget : s.tasks.get? id with
      | none => trivial
      | some task =>
          rw [hget] at hfits
          cases task with
          | device op stage =>
              refine revokesAlone_of_fits hdevices ?_
              rintro keys list rfl rfl
              exact of_decide_eq_true hfits
          | viewer op stage =>
              refine revokesAlone_of_fits hviewers ?_
              rintro keys list rfl rfl
              exact of_decide_eq_true hfits
          | setOption k v =>
              intro _ j hj e he
              rw [hviewers j hj] at he
              exact absurd he (List.not_mem_nil)
          | setOptions v previous => trivial
  | _ => trivial

end

/-! ## Samples -/

def emptyStatics : Statics where
  config2 := emptyConfig
  trustedDevices := ([], false)
  pairedViewers := ([], false)

/-- The next section of a call, at the time 0. -/
def runsNext (id : Nat) : Action := .runs id 0 (fun _ => 0)

/-- A viewer is added and then removed. -/
def addThenRemove : List Action :=
  [.addPairedViewer 0 sampleViewer, runsNext 0, runsNext 0, runsNext 0,
    .removePairedViewers 1 [[9]], runsNext 1, runsNext 1]

theorem revoked_stays_out_sample :
    ((updating sampleLibs ⟨∅, ∅⟩ emptyStatics).run addThenRemove).isSome = true ∧
      ∀ s, (updating sampleLibs ⟨∅, ∅⟩ emptyStatics).run addThenRemove = some s →
        ∀ viewer ∈ (pairedViewers sampleLibs).storedEntries sampleLibs.crypt s.statics.config2,
          Fresh (fun d => d.signPk) s.viewers viewer := by
  have hsolo : (updating sampleLibs ⟨∅, ∅⟩ emptyStatics).Follows
      (fun s a => s.solo sampleLibs a = true) (updating sampleLibs ⟨∅, ∅⟩ emptyStatics).init
      addThenRemove := by
    decide +kernel
  refine ⟨by decide +kernel, fun s hrun => ?_⟩
  have hreach : (updating sampleLibs ⟨∅, ∅⟩ emptyStatics).Reach
      (Updating.RevokesAlone sampleLibs ⟨∅, ∅⟩) s :=
    (TSys.reach_of_run addThenRemove hsolo hrun).mono (fun s a h => revokesAlone_of_solo h)
  exact (revoked_stays_out sampleLibs_lawful hreach).2

/-- Another viewer is being added while the first is removed. -/
def removedMeanwhile : List Action :=
  [.addPairedViewer 0 sampleViewer, runsNext 0, runsNext 0, runsNext 0,
    .addPairedViewer 1 anotherViewer, runsNext 1,
    .removePairedViewers 2 [[9]], runsNext 2, runsNext 2, runsNext 1]

/-- The list that was read before the removal is written back after it. -/
theorem removed_viewer_comes_back :
    ¬ ∀ s, (updating sampleLibs ⟨∅, ∅⟩ emptyStatics).Reach (fun _ _ => True) s →
      ∀ viewer ∈ (pairedViewers sampleLibs).storedEntries sampleLibs.crypt s.statics.config2,
        Fresh (fun d => d.signPk) s.viewers viewer := by
  intro h
  have hend : ((updating sampleLibs ⟨∅, ∅⟩ emptyStatics).run removedMeanwhile).map
      (fun s => (s.viewers, s.statics.config2)) = some
        ([.began sampleViewer, .began anotherViewer, .revoked [[9]]],
          (pairedViewers sampleLibs).setStored (Crypt.marking.encryptStrOrOriginal 0
            ((pairedViewers sampleLibs).json.toString [sampleViewer, anotherViewer])
            passwordEncVersion DeviceList.maxLen) emptyConfig) := by
    decide +kernel
  obtain ⟨s, hrun, hs⟩ := Option.map_eq_some_iff.mp hend
  obtain ⟨hviewers, hconfig⟩ := Prod.mk.inj hs
  have hread := DeviceList.read_setStored 0 Crypt.marking_ideal
    (pairedViewers_lawful sampleLibs_lawful)
    (show ((pairedViewers sampleLibs).json.toString
      [sampleViewer, anotherViewer]).utf8ByteSize ≤ DeviceList.maxLen by decide +kernel) emptyConfig
  have hstored : sampleViewer ∈
      (pairedViewers sampleLibs).storedEntries sampleLibs.crypt s.statics.config2 := by
    rw [hconfig, DeviceList.storedEntries, show sampleLibs.crypt = Crypt.marking from rfl, hread]
    exact List.mem_cons_self
  have hfresh := h s (TSys.reach_of_any_run removedMeanwhile hrun) sampleViewer hstored
  rw [hviewers] at hfresh
  have hbegan := hfresh [.began sampleViewer, .began anotherViewer] (.revoked [[9]]) [] rfl
    (by decide +kernel)
  exact absurd hbegan List.not_mem_nil

end HbbCommon.Config
