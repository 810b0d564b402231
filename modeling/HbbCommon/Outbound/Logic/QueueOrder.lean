import HbbCommon.Outbound.Queue
import HbbCommon.Base.Line

/-!
# The order of the outbound queue

The deque and the map together are one line of messages (`contents`): each call changes the
line as one would expect of it, and `dequeue` takes its first. With what has been dequeued in
front, the line obeys the law of barriers; a replaced message stands behind every barrier
because the barrier started a new generation.
-/

namespace HbbCommon.Outbound

open HbbCommon.Base
open HbbCommon.Transport (Bytes)

namespace OutboundState

def latestKey : OutboundEntry → Option LatestKey
  | .latest key => some key
  | _ => none

/-- The track of a pending frame: its display and its stream. -/
def trackOf (entry : Int × Nat × Nat) : Int × Nat := (entry.1, entry.2.1)

/-- The deque and the map hold the same replaceable messages, and the limits are kept. -/
structure Rep (q : OutboundState) : Prop where
  keys : ∀ key, q.latest.contains key = true ↔ .latest key ∈ q.entries
  nodup : (q.entries.filterMap latestKey).Nodup
  capacity : q.entries.length ≤ q.capacity
  tracks : q.videoEntries.length ≤ maxPendingVideoTracks
  bytes : q.videoBytes ≤ maxPendingVideoBytes
  oneEach : (q.videoEntries.map trackOf).Nodup
  generation : ∀ key, .latest key ∈ q.entries → (ofLex key).2 ≤ q.latestGeneration

variable {q q' : OutboundState}

theorem rep_new (capacity : Nat) : Rep (new capacity) where
  keys := fun key => by simp [new, OrdMap.contains]
  nodup := List.nodup_nil
  capacity := Nat.zero_le _
  tracks := Nat.zero_le _
  bytes := Nat.zero_le _
  oneEach := List.nodup_nil
  generation := fun _ hkey => nomatch hkey

/-! ## What the calls do to the line -/

theorem contents_pushBack (entry : OutboundEntry) :
    (q.pushBack entry).1.contents = q.contents ++ (itemAt q.latest entry).toList := by
  simp only [pushBack, contents, List.filterMap_append]
  cases h : itemAt q.latest entry <;> simp [h]

theorem itemAt_insert {latest : OrdMap LatestKey OutboundMessage} {key : LatestKey}
    {message : OutboundMessage} {entry : OutboundEntry} (h : entry ≠ .latest key) :
    itemAt (latest.insert key message) entry = itemAt latest entry := by
  cases entry with
  | reliable message => rfl
  | video display stream message => rfl
  | latest key' =>
      have hne : key' ≠ key := fun heq => h (by rw [heq])
      simp only [itemAt, OrdMap.get?_insert, if_neg hne]

theorem itemAt_erase {latest : OrdMap LatestKey OutboundMessage} {key : LatestKey}
    {entry : OutboundEntry} (h : entry ≠ .latest key) :
    itemAt (latest.erase key) entry = itemAt latest entry := by
  cases entry with
  | reliable message => rfl
  | video display stream message => rfl
  | latest key' =>
      have hne : key' ≠ key := fun heq => h (by rw [heq])
      simp only [itemAt, OrdMap.get?_erase, if_neg hne]

/-- A message under a key that has no entry changes nothing in the line. -/
theorem filterMap_itemAt_insert {latest : OrdMap LatestKey OutboundMessage} {key : LatestKey}
    {entries : List OutboundEntry} (h : .latest key ∉ entries) (message : OutboundMessage) :
    entries.filterMap (itemAt (latest.insert key message)) = entries.filterMap (itemAt latest) :=
  List.filterMap_congr (fun _ hentry => itemAt_insert (fun heq => h (heq ▸ hentry)))

theorem filterMap_itemAt_erase {latest : OrdMap LatestKey OutboundMessage} {key : LatestKey}
    {entries : List OutboundEntry} (h : .latest key ∉ entries) :
    entries.filterMap (itemAt (latest.erase key)) = entries.filterMap (itemAt latest) :=
  List.filterMap_congr (fun _ hentry => itemAt_erase (fun heq => h (heq ▸ hentry)))

/-- The place of a replaceable message is the only one of its key. -/
theorem Rep.place (h : Rep q) {key : LatestKey} (hkey : .latest key ∈ q.entries) :
    ∃ front rest, q.entries = front ++ .latest key :: rest ∧ .latest key ∉ front ∧
      .latest key ∉ rest := by
  obtain ⟨front, rest, hentries⟩ := List.append_of_mem hkey
  have hnodup := h.nodup
  rw [hentries, List.filterMap_append, List.filterMap_cons] at hnodup
  have hmem : ∀ {entries : List OutboundEntry}, OutboundEntry.latest key ∈ entries →
      key ∈ entries.filterMap latestKey :=
    fun hentry => List.mem_filterMap.mpr ⟨_, hentry, rfl⟩
  rw [List.nodup_append] at hnodup
  refine ⟨front, rest, hentries, ?_, ?_⟩
  · intro hfront
    exact hnodup.2.2 key (hmem hfront) key List.mem_cons_self rfl
  · intro hrest
    exact (List.nodup_cons.mp hnodup.2.1).1 (hmem hrest)

/-! ## The representation is kept -/

theorem Rep.reject (h : Rep q) (error : EnqueueError) : Rep (q.reject error).1 :=
  ⟨h.keys, h.nodup, h.capacity, h.tracks, h.bytes, h.oneEach, h.generation⟩

theorem Rep.advance (h : Rep q) {generation : Nat} (hle : q.latestGeneration ≤ generation) :
    Rep { q with latestGeneration := generation } :=
  ⟨h.keys, h.nodup, h.capacity, h.tracks, h.bytes, h.oneEach,
    fun key hkey => le_trans (h.generation key hkey) hle⟩

theorem mem_latestKeys {entries : List OutboundEntry} {key : LatestKey} :
    key ∈ entries.filterMap latestKey ↔ .latest key ∈ entries := by
  rw [List.mem_filterMap]
  constructor
  · rintro ⟨entry, hentry, hkey⟩
    cases entry with
    | latest key' =>
        cases hkey
        exact hentry
    | reliable message => cases hkey
    | video display stream message => cases hkey
  · intro hentry
    exact ⟨_, hentry, rfl⟩

/-- What `videoEntries` keeps of an entry. -/
def videoEntry : OutboundEntry → Option (Int × Nat × Nat)
  | .video display key message => some (display, key, message.bytes.length)
  | _ => none

theorem videoEntries_pushBack (q : OutboundState) (entry : OutboundEntry) :
    (q.pushBack entry).1.videoEntries = q.videoEntries ++ (videoEntry entry).toList := by
  simp only [pushBack, videoEntries, List.filterMap_append]
  cases entry <;> rfl

theorem video_of_videoEntry {entry : OutboundEntry} {added : Int × Nat × Nat}
    (h : videoEntry entry = some added) : ∃ display key message,
      entry = .video display key message ∧ added = (display, key, message.bytes.length) := by
  cases entry with
  | reliable message => cases h
  | latest key => cases h
  | video display key message => exact ⟨display, key, message, rfl, (Option.some.inj h).symm⟩

/-- A new entry at the end: a replaceable message with a new key, or a frame within the
limits. -/
theorem Rep.push (h : Rep q) {entry : OutboundEntry} (latest : OrdMap LatestKey OutboundMessage)
    (hroom : q.entries.length < q.capacity)
    (hkeys : ∀ key, latest.contains key = true ↔ .latest key ∈ q.entries ++ [entry])
    (hlatest : ∀ key, entry = .latest key →
      .latest key ∉ q.entries ∧ (ofLex key).2 ≤ q.latestGeneration)
    (hvideo : ∀ display stream message, entry = .video display stream message →
      q.videoEntries.length < maxPendingVideoTracks ∧
      message.bytes.length + q.videoBytes ≤ maxPendingVideoBytes ∧
      (display, stream) ∉ q.videoEntries.map trackOf) :
    Rep ({ q with latest := latest }.pushBack entry).1 := by
  have hcapacity : (q.entries ++ [entry]).length ≤ q.capacity := by
    rw [List.length_append, List.length_singleton]
    exact hroom
  have hgeneration : ∀ key, .latest key ∈ q.entries ++ [entry] →
      (ofLex key).2 ≤ q.latestGeneration := by
    intro key hkey
    obtain hkey | hkey := List.mem_append.mp hkey
    · exact h.generation key hkey
    · exact (hlatest key (List.mem_singleton.mp hkey).symm).2
  have hnodup : ((q.entries ++ [entry]).filterMap latestKey).Nodup := by
    rw [List.filterMap_append, List.nodup_append]
    refine ⟨h.nodup, ?_, ?_⟩
    · cases entry with
      | latest key => exact List.nodup_singleton _
      | reliable message => exact List.nodup_nil
      | video display stream message => exact List.nodup_nil
    · rintro a ha b hb rfl
      rw [mem_latestKeys] at ha hb
      exact (hlatest a (List.mem_singleton.mp hb).symm).1 ha
  have hentries := videoEntries_pushBack { q with latest := latest } entry
  cases hadded : videoEntry entry with
  | none =>
      rw [hadded, Option.toList_none, List.append_nil] at hentries
      refine ⟨hkeys, hnodup, hcapacity, ?_, ?_, ?_, hgeneration⟩
      · rw [hentries]
        exact h.tracks
      · rw [videoBytes, hentries]
        exact h.bytes
      · rw [hentries]
        exact h.oneEach
  | some added =>
      obtain ⟨display, stream, message, rfl, rfl⟩ := video_of_videoEntry hadded
      obtain ⟨htracks, hbytes, hnew⟩ := hvideo display stream message rfl
      rw [hadded, Option.toList_some] at hentries
      refine ⟨hkeys, hnodup, hcapacity, ?_, ?_, ?_, hgeneration⟩
      · rw [hentries, List.length_append, List.length_singleton]
        exact htracks
      · rw [videoBytes, hentries, List.map_append, List.sum_append]
        simpa [videoBytes, videoEntries, Nat.add_comm] using hbytes
      · rw [hentries, List.map_append, List.nodup_append]
        refine ⟨h.oneEach, List.nodup_singleton _, ?_⟩
        rintro a ha b hb rfl
        rw [List.map_singleton, List.mem_singleton] at hb
        subst hb
        exact hnew ha

theorem Rep.pushReliable (h : Rep q) (hroom : q.entries.length < q.capacity)
    (message : OutboundMessage) : Rep (q.pushBack (.reliable message)).1 := by
  refine h.push q.latest hroom ?_ nofun nofun
  intro key
  rw [h.keys, List.mem_append, List.mem_singleton]
  exact ⟨.inl, fun hor => hor.elim id nofun⟩

/-- New content for a key that has a place. -/
theorem Rep.replaceLatest (h : Rep q) {key : LatestKey} (hkey : .latest key ∈ q.entries)
    (message : OutboundMessage) (replacements : Nat) :
    Rep { q with
      latest := q.latest.insert key message, latestReplacements := replacements } := by
  refine ⟨?_, h.nodup, h.capacity, h.tracks, h.bytes, h.oneEach, h.generation⟩
  intro key'
  rw [OrdMap.contains_insert, Bool.or_eq_true, h.keys, decide_eq_true_eq]
  exact ⟨fun hor => hor.elim (fun heq => heq ▸ hkey) id, .inr⟩

/-- A new key, with its place at the end. -/
theorem Rep.pushLatest (h : Rep q) (hroom : q.entries.length < q.capacity) {key : LatestKey}
    (hkey : .latest key ∉ q.entries) (hgeneration : (ofLex key).2 ≤ q.latestGeneration)
    (message : OutboundMessage) :
    Rep ({ q with latest := q.latest.insert key message }.pushBack (.latest key)).1 := by
  refine h.push (q.latest.insert key message) hroom ?_ ?_ nofun
  · intro key'
    rw [OrdMap.contains_insert, Bool.or_eq_true, h.keys, decide_eq_true_eq, List.mem_append,
      List.mem_singleton, OutboundEntry.latest.injEq, or_comm]
  · rintro _ ⟨⟩
    exact ⟨hkey, hgeneration⟩

theorem Rep.pushVideo (h : Rep q) (hroom : q.entries.length < q.capacity) {display : Int}
    {stream : Nat} {message : OutboundMessage}
    (htracks : q.videoEntries.length < maxPendingVideoTracks)
    (hbytes : message.bytes.length + q.videoBytes ≤ maxPendingVideoBytes)
    (hnew : (display, stream) ∉ q.videoEntries.map trackOf) :
    Rep (q.pushBack (.video display stream message)).1 := by
  refine h.push q.latest hroom ?_ nofun ?_
  · intro key
    rw [h.keys, List.mem_append, List.mem_singleton]
    exact ⟨.inl, fun hor => hor.elim id nofun⟩
  · rintro _ _ _ ⟨⟩
    exact ⟨htracks, hbytes, hnew⟩

/-- The places behind some that are taken away, when the map loses their keys. -/
theorem Rep.sublist (h : Rep q) {entries : List OutboundEntry}
    (latest : OrdMap LatestKey OutboundMessage) (hsub : entries.Sublist q.entries)
    (hkeys : ∀ key, latest.contains key = true ↔ .latest key ∈ entries) :
    Rep { q with entries := entries, latest := latest } := by
  have hvideo : ({ q with entries := entries, latest := latest } :
      OutboundState).videoEntries.Sublist q.videoEntries := hsub.filterMap _
  refine ⟨hkeys, h.nodup.sublist (hsub.filterMap _), hsub.length_le.trans h.capacity,
    hvideo.length_le.trans h.tracks, ?_, h.oneEach.sublist (hvideo.map _),
    fun key hkey => h.generation key (hsub.subset hkey)⟩
  exact ((hvideo.map _).sum_le_sum (fun _ _ => Nat.zero_le _)).trans h.bytes

/-! ## What the calls do -/

theorem enqueue_cases (q : OutboundState) (message : OutboundMessage) :
    (∃ error, q.enqueue message = q.reject error) ∨
      q.entries.length < q.capacity ∧ q.enqueue message = q.pushBack (.reliable message) := by
  unfold enqueue
  split
  · exact .inl ⟨_, rfl⟩
  · split
    · exact .inl ⟨_, rfl⟩
    · rename_i hroom
      exact .inr ⟨Nat.lt_of_not_le hroom, rfl⟩

theorem enqueueBarrier_cases (q : OutboundState) (message : OutboundMessage) :
    (∃ error, q.enqueueBarrier message = q.reject error) ∨
      q.entries.length < q.capacity ∧ q.enqueueBarrier message =
        { q with latestGeneration := (q.latestGeneration + 1) % 2 ^ 64 }.pushBack
          (.reliable message) := by
  unfold enqueueBarrier
  split
  · exact .inl ⟨_, rfl⟩
  · split
    · exact .inl ⟨_, rfl⟩
    · rename_i hroom
      exact .inr ⟨Nat.lt_of_not_le hroom, rfl⟩

/-- A message under a key is refused, replaces the content of its place, or gets a place. -/
theorem enqueueLatest_cases (q : OutboundState) (key : Nat) (message : OutboundMessage) :
    (∃ error, q.enqueueLatest key message = q.reject error ∧
      (q.closed = true ∨ q.latest.contains (q.generationKey key) = false)) ∨
    (q.closed = false ∧ q.latest.contains (q.generationKey key) = true ∧
      q.enqueueLatest key message = ({ q with
        latest := q.latest.insert (q.generationKey key) message
        latestReplacements := min (q.latestReplacements + 1) counterMax }, .replaced)) ∨
    (q.closed = false ∧ q.latest.contains (q.generationKey key) = false ∧
      q.entries.length < q.capacity ∧ q.enqueueLatest key message =
        { q with latest := q.latest.insert (q.generationKey key) message }.pushBack
          (.latest (q.generationKey key))) := by
  unfold enqueueLatest
  split
  · rename_i hclosed
    exact .inl ⟨_, rfl, .inl hclosed⟩
  · rename_i hopen
    split
    · rename_i hcontains
      exact .inr (.inl ⟨Bool.eq_false_of_not_eq_true hopen, hcontains, rfl⟩)
    · rename_i hnew
      split
      · exact .inl ⟨_, rfl, .inr (Bool.eq_false_of_not_eq_true hnew)⟩
      · rename_i hroom
        exact .inr (.inr ⟨Bool.eq_false_of_not_eq_true hopen, Bool.eq_false_of_not_eq_true hnew,
          Nat.lt_of_not_le hroom, rfl⟩)

/-- A frame is refused as the queue is, is refused behind the frames it retires, or gets a
place behind them. -/
theorem enqueueVideo_cases (q : OutboundState) (display : Int) (key : Nat)
    (message : OutboundMessage) :
    ((q.closed || q.entries.any (newerVideo display key)) = true ∧
      ∃ error, q.enqueueVideo display key message = q.reject error) ∨
    (q.closed || q.entries.any (newerVideo display key)) = false ∧
      ((∃ error, q.enqueueVideo display key message =
          (q.retireVideo display key).reject error) ∨
        ((display, key) ∉ (q.retireVideo display key).videoEntries.map trackOf ∧
          (q.retireVideo display key).videoEntries.length < maxPendingVideoTracks ∧
          message.bytes.length + (q.retireVideo display key).videoBytes ≤ maxPendingVideoBytes ∧
          (q.retireVideo display key).entries.length < q.capacity - 1 ∧
          q.enqueueVideo display key message =
            (q.retireVideo display key).pushBack (.video display key message))) := by
  unfold enqueueVideo
  cases hclosed : q.closed with
  | true => exact .inl ⟨rfl, _, rfl⟩
  | false =>
      cases hnewer : q.entries.any (newerVideo display key) with
      | true => exact .inl ⟨rfl, _, rfl⟩
      | false =>
          refine .inr ⟨rfl, ?_⟩
          simp only [Bool.false_eq_true, if_false]
          split
          · exact .inl ⟨_, rfl⟩
          · rename_i hbudget
            simp only [Bool.or_eq_true, decide_eq_true_eq, not_or, Nat.not_le, gt_iff_lt,
              Nat.not_lt, ge_iff_le] at hbudget
            obtain ⟨⟨⟨⟨hoccupied, htracks⟩, -⟩, hbytes⟩, hroom⟩ := hbudget
            refine .inr ⟨?_, htracks, hbytes, hroom, rfl⟩
            intro htrack
            obtain ⟨entry, hentry, heq⟩ := List.mem_map.mp htrack
            refine hoccupied (List.any_eq_true.mpr ⟨entry, hentry, ?_⟩)
            obtain ⟨hdisplay, hkey⟩ := Prod.mk.inj heq
            exact decide_eq_true ⟨hdisplay, hkey⟩

/-- `dequeue` takes the first message of the line. -/
theorem dequeue_spec (h : Rep q) :
    (q.entries = [] ∧ q.dequeue = (q, none)) ∨
      ∃ item q', q.dequeue = (q', some item) ∧ q.contents = item :: q'.contents ∧ Rep q' ∧
        q.entries.length = q'.entries.length + 1 ∧ q'.latestGeneration = q.latestGeneration ∧
        q'.capacity = q.capacity ∧ q'.closed = q.closed := by
  obtain ⟨entries, latest, generation, capacity, closed, replacements, rejected⟩ := q
  cases entries with
  | nil => exact .inl ⟨rfl, rfl⟩
  | cons entry entries =>
      have hkept : ∀ key, entry ≠ .latest key →
          (latest.contains key = true ↔ .latest key ∈ entries) := by
        intro key hne
        rw [h.keys key, List.mem_cons]
        exact ⟨fun hor => hor.elim (fun heq => absurd heq.symm hne) id, .inr⟩
      cases entry with
      | reliable message =>
          exact .inr ⟨_, _, rfl, rfl, h.sublist latest (List.sublist_cons_self _ _)
            (fun key => hkept key nofun), rfl, rfl, rfl, rfl⟩
      | video display stream message =>
          exact .inr ⟨_, _, rfl, rfl, h.sublist latest (List.sublist_cons_self _ _)
            (fun key => hkept key nofun), rfl, rfl, rfl, rfl⟩
      | latest key =>
          obtain ⟨message, hmessage⟩ :=
            OrdMap.contains_iff.mp ((h.keys key).mpr List.mem_cons_self)
          have hmessage' : latest.get? key = some message := hmessage
          have hlast : .latest key ∉ entries := by
            have hnodup := h.nodup
            rw [← mem_latestKeys]
            exact (List.nodup_cons.mp hnodup).1
          refine .inr ⟨(.latest key, message), _, ?_, ?_, h.sublist (latest.erase key)
            (List.sublist_cons_self _ _) ?_, rfl, rfl, rfl, rfl⟩
          · simp only [dequeue, popFront, hmessage']
          · simp only [contents, List.filterMap_cons, itemAt, hmessage', Option.map_some,
              filterMap_itemAt_erase hlast]
          · intro key'
            by_cases heq : key' = key
            · subst heq
              simp [OrdMap.contains, hlast]
            · rw [OrdMap.contains, OrdMap.get?_erase, if_neg heq]
              exact hkept key' (fun hentry => heq (OutboundEntry.latest.inj hentry).symm)

theorem olderVideo_of_itemAt {latest : OrdMap LatestKey OutboundMessage} {entry : OutboundEntry}
    {item : Place × OutboundMessage} (h : itemAt latest entry = some item) (display : Int)
    (key : Nat) : item.1.olderVideo display key = olderVideo display key entry := by
  cases entry with
  | reliable message =>
      cases h
      rfl
  | video display' stream message =>
      cases h
      rfl
  | latest key' =>
      obtain ⟨message, -, rfl⟩ := Option.map_eq_some_iff.mp h
      rfl

/-- Retired frames leave the line. -/
theorem contents_retireVideo (q : OutboundState) (display : Int) (key : Nat) :
    (q.retireVideo display key).contents =
      q.contents.filter (fun item => !item.1.olderVideo display key) := by
  simp only [contents, retireVideo]
  induction q.entries with
  | nil => rfl
  | cons entry entries ih =>
      cases hitem : itemAt q.latest entry with
      | none =>
          have hkept : olderVideo display key entry = false := by
            cases entry with
            | latest key' => rfl
            | reliable message => cases hitem
            | video display' stream message => cases hitem
          rw [List.filter_cons_of_pos (by rw [hkept]; rfl), List.filterMap_cons_none hitem,
            List.filterMap_cons_none hitem, ih]
      | some item =>
          have holder := olderVideo_of_itemAt hitem display key
          rw [List.filterMap_cons_some hitem]
          cases hkept : olderVideo display key entry with
          | true =>
              rw [List.filter_cons_of_neg (by rw [hkept]; decide), ih,
                List.filter_cons_of_neg (by rw [holder, hkept]; decide)]
          | false =>
              rw [List.filter_cons_of_pos (by rw [hkept]; rfl), List.filterMap_cons_some hitem, ih,
                List.filter_cons_of_pos (by rw [holder, hkept]; rfl)]

theorem Rep.retireVideo (h : Rep q) (display : Int) (key : Nat) :
    Rep (q.retireVideo display key) := by
  refine h.sublist q.latest List.filter_sublist ?_
  intro key'
  rw [h.keys, List.mem_filter]
  exact ⟨fun hmem => ⟨hmem, rfl⟩, And.left⟩

theorem latest_of_itemAt {latest : OrdMap LatestKey OutboundMessage} {entry : OutboundEntry}
    {item : Place × OutboundMessage} {key : LatestKey} (h : itemAt latest entry = some item)
    (hplace : item.1 = .latest key) : entry = .latest key := by
  cases entry with
  | reliable message =>
      cases h
      cases hplace
  | video display stream message =>
      cases h
      cases hplace
  | latest key' =>
      obtain ⟨message, -, rfl⟩ := Option.map_eq_some_iff.mp h
      cases hplace
      rfl

/-- Only an entry of its key has a replaceable message in the line. -/
theorem latest_mem_entries {item : Place × OutboundMessage} {key : LatestKey}
    (h : item ∈ q.contents) (hplace : item.1 = .latest key) : .latest key ∈ q.entries := by
  obtain ⟨entry, hentry, hitem⟩ := List.mem_filterMap.mp h
  exact latest_of_itemAt hitem hplace ▸ hentry

/-- New content keeps its place in the line. -/
theorem Rep.contents_replace (h : Rep q) {key : LatestKey} {old : OutboundMessage}
    (hold : q.latest.get? key = some old) :
    ∃ front rest, q.contents = front ++ (.latest key, old) :: rest ∧
      (∀ item ∈ front ++ rest, item.1 ≠ .latest key) ∧ ∀ message replacements,
      ({ q with latest := q.latest.insert key message, latestReplacements := replacements } :
        OutboundState).contents = front ++ (.latest key, message) :: rest := by
  have hkey : .latest key ∈ q.entries := (h.keys key).mp (OrdMap.contains_iff.mpr ⟨old, hold⟩)
  obtain ⟨front, rest, hentries, hfront, hrest⟩ := h.place hkey
  refine ⟨front.filterMap (itemAt q.latest), rest.filterMap (itemAt q.latest), ?_, ?_, ?_⟩
  · rw [contents, hentries, List.filterMap_append, List.filterMap_cons_some (b :=
      (.latest key, old)) (by rw [itemAt, hold]; rfl)]
  · rw [← List.filterMap_append]
    rintro item hitem hplace
    obtain ⟨entry, hentry, hitem⟩ := List.mem_filterMap.mp hitem
    rw [latest_of_itemAt hitem hplace] at hentry
    exact (List.mem_append.mp hentry).elim hfront hrest
  · intro message replacements
    simp only [contents, hentries, List.filterMap_append, filterMap_itemAt_insert hfront]
    rw [List.filterMap_cons_some (b := (.latest key, message)) (by
      rw [itemAt, OrdMap.get?_insert, if_pos rfl]; rfl), filterMap_itemAt_insert hrest]

end OutboundState

namespace OutboundRun

open OutboundState (Place Rep)

/-- The barriers that were accepted. -/
def barriers (s : OutboundRun) : Nat := s.accepted.countP Prod.snd

/-- A replaceable message of an earlier generation. -/
def Stale (generation : Nat) (item : OutboundItem) : Prop :=
  ∀ key, item.1 = .latest key → (ofLex key).2 < generation

def Fixed (item : OutboundItem) : Prop := item.1 = .reliable

instance : DecidablePred Fixed := fun item => inferInstanceAs (Decidable (item.1 = .reliable))

/-- The content that was accepted last for a place. -/
def newestAt (s : OutboundRun) (place : Place) : Option OutboundItem :=
  ((s.accepted.map Prod.fst).filter (fun item => decide (item.1 = place))).getLast?

theorem newestAt_record_of_ne {s : OutboundRun} {queue : OutboundState} {result : EnqueueResult}
    {item : OutboundItem} {barrier : Bool} {dropped : List OutboundItem} {place : Place}
    (h : item.1 ≠ place) :
    (s.record queue result item barrier dropped).newestAt place = s.newestAt place := by
  cases result with
  | refused error => rfl
  | pushed => simp [newestAt, record, h]
  | replaced => simp [newestAt, record, h]

structure Inv (capacity : Nat) (s : OutboundRun) : Prop where
  rep : Rep s.queue
  capacity : s.queue.capacity = max capacity 1
  generation : s.queue.latestGeneration = s.barriers
  generations : ∀ item ∈ s.line, ∀ key, item.1 = .latest key →
    (ofLex key).2 ≤ s.queue.latestGeneration
  reliable : s.line.filter (fun item => decide (Fixed item)) =
    (s.accepted.map Prod.fst).filter (fun item => decide (Fixed item))
  newest : ∀ item ∈ s.queue.contents, ∀ key, item.1 = .latest key →
    s.newestAt (.latest key) = some item
  lawful : Line.Lawful (Stale s.queue.latestGeneration) Fixed ⟨s.accepted, s.line, s.dropped⟩

variable {capacity : Nat} {s s' : OutboundRun}

theorem inv_new (capacity : Nat) : Inv capacity (new capacity) where
  rep := OutboundState.rep_new capacity
  capacity := rfl
  generation := rfl
  generations := fun _ hitem => nomatch hitem
  reliable := rfl
  newest := fun _ hitem => nomatch hitem
  lawful := Line.Lawful.empty _ _

/-- A call that is refused changes nothing of the line. -/
theorem Inv.refused (h : Inv capacity s) (error : EnqueueError) (item : OutboundItem)
    (barrier : Bool) :
    Inv capacity (s.record (s.queue.reject error).1 (s.queue.reject error).2 item barrier []) := by
  refine ⟨h.rep.reject error, h.capacity, h.generation, h.generations, h.reliable, h.newest, ?_⟩
  show Line.Lawful _ _ ⟨s.accepted, s.line, s.dropped ++ []⟩
  rw [List.append_nil]
  exact h.lawful

/-- A new item at the end of the line. -/
theorem Inv.pushed (h : Inv capacity s) {queue : OutboundState} {item : OutboundItem}
    (hrep : Rep queue) (hcapacity : queue.capacity = s.queue.capacity)
    (hgeneration : queue.latestGeneration = s.queue.latestGeneration)
    (hcontents : queue.contents = s.queue.contents ++ [item])
    (hitem : ∀ key, item.1 = .latest key →
      (ofLex key).2 ≤ s.queue.latestGeneration ∧ .latest key ∉ s.queue.entries) :
    Inv capacity (s.record queue .pushed item false []) := by
  have hline : (s.record queue .pushed item false []).line = s.line ++ [item] := by
    simp only [line, record, hcontents, List.append_assoc]
  refine ⟨hrep, hcapacity.trans h.capacity, ?_, ?_, ?_, ?_, ?_⟩
  · show queue.latestGeneration = (s.accepted ++ [(item, false)]).countP Prod.snd
    rw [List.countP_append, hgeneration, h.generation]
    rfl
  · rw [hline]
    show ∀ item ∈ _, ∀ key, _ → _ ≤ queue.latestGeneration
    rw [hgeneration]
    intro e he
    obtain he | he := List.mem_append.mp he
    · exact h.generations e he
    · rw [List.mem_singleton.mp he]
      exact fun key hkey => (hitem key hkey).1
  · rw [hline, List.filter_append, h.reliable]
    show _ = ((s.accepted ++ [(item, false)]).map Prod.fst).filter _
    rw [List.map_append, List.filter_append]
    rfl
  · intro e he key hkey
    rw [show (s.record queue .pushed item false []).queue.contents = _ from hcontents] at he
    obtain he | he := List.mem_append.mp he
    · rw [newestAt_record_of_ne (fun hplace => (hitem key hplace).2
        (OutboundState.latest_mem_entries he hkey))]
      exact h.newest e he key hkey
    · rw [List.mem_singleton.mp he] at hkey ⊢
      simp [newestAt, record, hkey]
  · rw [hline]
    show Line.Lawful (Stale queue.latestGeneration) _ ⟨s.accepted ++ [(item, false)], _,
      s.dropped ++ []⟩
    rw [hgeneration, List.append_nil]
    exact h.lawful.append item

theorem Inv.barrier (h : Inv capacity s) {queue : OutboundState} {message : OutboundMessage}
    (hrep : Rep queue) (hcapacity : queue.capacity = s.queue.capacity)
    (hgeneration : queue.latestGeneration = s.queue.latestGeneration + 1)
    (hcontents : queue.contents = s.queue.contents ++ [(.reliable, message)]) :
    Inv capacity (s.record queue .pushed (.reliable, message) true []) := by
  have hline : (s.record queue .pushed (.reliable, message) true []).line =
      s.line ++ [(.reliable, message)] := by
    simp only [line, record, hcontents, List.append_assoc]
  refine ⟨hrep, hcapacity.trans h.capacity, ?_, ?_, ?_, ?_, ?_⟩
  · show queue.latestGeneration =
      (s.accepted ++ [((Place.reliable, message), true)]).countP Prod.snd
    rw [List.countP_append, hgeneration, h.generation]
    rfl
  · rw [hline]
    show ∀ item ∈ _, ∀ key, _ → _ ≤ queue.latestGeneration
    rw [hgeneration]
    intro e he key hkey
    obtain he | he := List.mem_append.mp he
    · exact le_trans (h.generations e he key hkey) (Nat.le_succ _)
    · rw [List.mem_singleton.mp he] at hkey
      cases hkey
  · rw [hline, List.filter_append, h.reliable]
    show _ = ((s.accepted ++ [((Place.reliable, message), true)]).map Prod.fst).filter _
    rw [List.map_append, List.filter_append]
    rfl
  · intro e he key hkey
    rw [show (s.record queue .pushed (.reliable, message) true []).queue.contents = _ from
      hcontents] at he
    obtain he | he := List.mem_append.mp he
    · exact (newestAt_record_of_ne (by nofun)).trans (h.newest e he key hkey)
    · rw [List.mem_singleton.mp he] at hkey
      cases hkey
  · rw [hline]
    show Line.Lawful (Stale queue.latestGeneration) _ ⟨s.accepted ++ [_], _, s.dropped ++ []⟩
    rw [hgeneration, List.append_nil]
    refine h.lawful.barrier ?_ rfl
    intro e he key hkey
    exact Nat.lt_succ_of_le (h.generations e he key hkey)

/-- New content in the place of older content of this generation. -/
theorem Inv.replaced (h : Inv capacity s) {key : Nat} {message old : OutboundMessage}
    (hold : s.queue.latest.get? (s.queue.generationKey key) = some old) (replacements : Nat) :
    Inv capacity (s.record
      { s.queue with
        latest := s.queue.latest.insert (s.queue.generationKey key) message
        latestReplacements := replacements }
      .replaced (.latest (s.queue.generationKey key), message) false
      [(.latest (s.queue.generationKey key), old)]) := by
  obtain ⟨front, rest, hcontents, hothers, hreplaced⟩ := h.rep.contents_replace hold
  have hplace : .latest (s.queue.generationKey key) ∈ s.queue.entries :=
    (h.rep.keys _).mp (OrdMap.contains_iff.mpr ⟨old, hold⟩)
  have hline : s.line = (s.dequeued ++ front) ++
      (Place.latest (s.queue.generationKey key), old) :: rest := by
    rw [line, hcontents, List.append_assoc]
  have hlawful := h.lawful
  have hreliable := h.reliable
  have hgenerations := h.generations
  rw [hline] at hlawful hreliable hgenerations
  have hline' : (s.record
      { s.queue with
        latest := s.queue.latest.insert (s.queue.generationKey key) message
        latestReplacements := replacements }
      .replaced (.latest (s.queue.generationKey key), message) false
      [(.latest (s.queue.generationKey key), old)]).line =
      (s.dequeued ++ front) ++ (Place.latest (s.queue.generationKey key), message) :: rest := by
    simp only [line, record, hreplaced, List.append_assoc]
  refine ⟨h.rep.replaceLatest hplace message replacements, h.capacity, ?_, ?_, ?_, ?_, ?_⟩
  · show s.queue.latestGeneration = (s.accepted ++ [(_, false)]).countP Prod.snd
    rw [List.countP_append, h.generation]
    rfl
  · rw [hline']
    intro e he key' hkey'
    obtain he | he := List.mem_append.mp he
    · exact hgenerations e (List.mem_append_left _ he) key' hkey'
    · obtain rfl | he := List.mem_cons.mp he
      · cases hkey'
        exact le_refl _
      · exact hgenerations e (List.mem_append_right _ (List.mem_cons_of_mem _ he)) key' hkey'
  · rw [hline']
    show _ = ((s.accepted ++ [((Place.latest (s.queue.generationKey key), message), false)]).map
      Prod.fst).filter _
    rw [List.map_append, List.filter_append (s.accepted.map Prod.fst), ← hreliable]
    simp [Fixed]
  · intro e he key' hkey'
    rw [show (s.record _ _ _ _ _).queue.contents = _ from hreplaced message replacements] at he
    have hcase : e ∈ front ++ rest ∨ e = (Place.latest (s.queue.generationKey key), message) := by
      rw [List.mem_append, List.mem_cons] at he
      rw [List.mem_append]
      tauto
    obtain hother | rfl := hcase
    · have hne := hothers e hother
      rw [hkey'] at hne
      rw [newestAt_record_of_ne (fun hplace => hne hplace.symm)]
      refine h.newest e ?_ key' hkey'
      rw [hcontents, List.mem_append, List.mem_cons]
      rw [List.mem_append] at hother
      tauto
    · cases hkey'
      simp [newestAt, record]
  · rw [hline']
    refine hlawful.replace ?_ nofun _
    intro hstale
    exact absurd (hstale _ rfl) (lt_irrefl _)

theorem Inv.retired (h : Inv capacity s) (display : Int) (key : Nat) :
    Inv capacity { s with
      queue := s.queue.retireVideo display key
      dropped := s.dropped ++ s.queue.contents.filter (fun item =>
        item.1.olderVideo display key) } := by
  have hnotFixed : ∀ item : OutboundItem, item.1.olderVideo display key = true → ¬ Fixed item := by
    rintro ⟨place, message⟩ holder hfixed
    cases hfixed
    cases holder
  have hline : ({ s with
      queue := s.queue.retireVideo display key
      dropped := s.dropped ++ s.queue.contents.filter (fun item =>
        item.1.olderVideo display key) } : OutboundRun).line =
      s.dequeued ++ s.queue.contents.filter (fun item => !item.1.olderVideo display key) := by
    rw [line, OutboundState.contents_retireVideo]
  refine ⟨h.rep.retireVideo display key, h.capacity, h.generation, ?_, ?_, ?_, ?_⟩
  · rw [hline]
    intro e he
    refine h.generations e ?_
    obtain he | he := List.mem_append.mp he
    · exact List.mem_append_left _ he
    · exact List.mem_append_right _ (List.mem_filter.mp he).1
  · rw [hline, ← h.reliable, line, List.filter_append, List.filter_append, List.filter_filter]
    congr 1
    refine List.filter_congr (fun item _ => ?_)
    by_cases hfixed : Fixed item
    · have hkept : item.1.olderVideo display key = false :=
        Bool.eq_false_of_not_eq_true (fun holder => hnotFixed item holder hfixed)
      simp [hfixed, hkept]
    · simp [hfixed]
  · intro e he
    refine h.newest e ?_
    rw [show OutboundRun.queue _ = s.queue.retireVideo display key from rfl,
      OutboundState.contents_retireVideo] at he
    exact (List.mem_filter.mp he).1
  · rw [hline]
    have hlawful : Line.Lawful (Stale s.queue.latestGeneration) Fixed
        ⟨s.accepted, s.dequeued ++ s.queue.contents, s.dropped⟩ := h.lawful
    have hfilter := hlawful.filter
      (fun item => !item.1.olderVideo display key) (by
        intro item _ hdropped
        exact hnotFixed item (by simpa using hdropped))
    show Line.Lawful (Stale s.queue.latestGeneration) _ _
    simpa using hfilter

theorem Inv.dequeue (h : Inv capacity s) :
    Inv capacity { s with
      queue := s.queue.dequeue.1, dequeued := s.dequeued ++ s.queue.dequeue.2.toList } := by
  obtain ⟨-, hdequeue⟩ | ⟨item, q, hdequeue, hcontents, hrep, -, hgeneration, hcapacity, -⟩ :=
    OutboundState.dequeue_spec h.rep
  · rw [hdequeue]
    simpa using h
  · rw [hdequeue]
    have hline : ({ s with queue := q, dequeued := s.dequeued ++ [item] } : OutboundRun).line =
        s.line := by
      rw [line, line, hcontents, List.append_assoc]
      rfl
    refine ⟨hrep, hcapacity.trans h.capacity, hgeneration.trans h.generation, ?_, ?_, ?_, ?_⟩
    · rw [Option.toList_some, hline]
      show ∀ item ∈ _, ∀ key, _ → _ ≤ q.latestGeneration
      rw [hgeneration]
      exact h.generations
    · rw [Option.toList_some, hline]
      exact h.reliable
    · intro e he
      refine h.newest e ?_
      rw [hcontents]
      exact List.mem_cons_of_mem _ he
    · rw [Option.toList_some, hline]
      show Line.Lawful (Stale q.latestGeneration) _ _
      rw [hgeneration]
      exact h.lawful

theorem barriers_le_record (s : OutboundRun) (queue : OutboundState) (result : EnqueueResult)
    (item : OutboundItem) (barrier : Bool) (dropped : List OutboundItem) :
    s.barriers ≤ (s.record queue result item barrier dropped).barriers := by
  cases result <;> simp [barriers, record, List.countP_append]

theorem barriers_le_step {call : OutboundCall} (hstep : s.step call = some s') :
    s.barriers ≤ s'.barriers := by
  cases call <;> cases hstep
  case dequeue => exact le_refl _
  all_goals exact barriers_le_record ..

theorem Inv.enqueue (h : Inv capacity s) (message : OutboundMessage) :
    Inv capacity (s.record (s.queue.enqueue message).1 (s.queue.enqueue message).2
      (.reliable, message) false []) := by
  obtain ⟨error, hcase⟩ | ⟨hroom, hcase⟩ := s.queue.enqueue_cases message
  · rw [hcase]
    exact h.refused error _ _
  · rw [hcase]
    exact h.pushed (h.rep.pushReliable hroom message) rfl rfl
      (OutboundState.contents_pushBack _) (by nofun)

theorem Inv.enqueueBarrier (h : Inv capacity s) (message : OutboundMessage)
    (hbarriers : (s.record (s.queue.enqueueBarrier message).1 (s.queue.enqueueBarrier message).2
      (.reliable, message) true []).barriers < 2 ^ 64) :
    Inv capacity (s.record (s.queue.enqueueBarrier message).1 (s.queue.enqueueBarrier message).2
      (.reliable, message) true []) := by
  obtain ⟨error, hcase⟩ | ⟨hroom, hcase⟩ := s.queue.enqueueBarrier_cases message
  · rw [hcase]
    exact h.refused error _ _
  · rw [hcase] at hbarriers ⊢
    -- the number of barriers is the generation, so the next one does not wrap around
    have hlt : s.queue.latestGeneration + 1 < 2 ^ 64 := by
      rw [h.generation]
      simpa [barriers, record, OutboundState.pushBack, List.countP_append] using hbarriers
    have hgeneration := Nat.mod_eq_of_lt hlt
    rw [hgeneration]
    exact h.barrier ((h.rep.advance (Nat.le_succ _)).pushReliable hroom message) rfl rfl
      (OutboundState.contents_pushBack _)

theorem Inv.enqueueLatest (h : Inv capacity s) (key : Nat) (message : OutboundMessage) :
    Inv capacity (s.record (s.queue.enqueueLatest key message).1
      (s.queue.enqueueLatest key message).2 (.latest (s.queue.generationKey key), message) false
      (replacedBy s.queue key)) := by
  obtain ⟨error, hcase, hnone⟩ | ⟨hopen, hcontains, hcase⟩ | ⟨hopen, hnew, hroom, hcase⟩ :=
    s.queue.enqueueLatest_cases key message
  · have hreplaced : replacedBy s.queue key = [] := by
      unfold replacedBy
      obtain hclosed | hnew := hnone
      · rw [if_pos hclosed]
      · rw [OrdMap.contains, Option.isSome_eq_false_iff, Option.isNone_iff_eq_none] at hnew
        rw [hnew]
        simp
    rw [hcase, hreplaced]
    exact h.refused error _ _
  · obtain ⟨old, hold⟩ := OrdMap.contains_iff.mp hcontains
    have hreplaced : replacedBy s.queue key = [(.latest (s.queue.generationKey key), old)] := by
      simp [replacedBy, hopen, hold]
    rw [hcase, hreplaced]
    exact h.replaced hold _
  · have hplace : .latest (s.queue.generationKey key) ∉ s.queue.entries := by
      rw [← h.rep.keys, hnew]
      exact Bool.false_ne_true
    have hreplaced : replacedBy s.queue key = [] := by
      rw [OrdMap.contains, Option.isSome_eq_false_iff, Option.isNone_iff_eq_none] at hnew
      simp [replacedBy, hnew]
    rw [hcase, hreplaced]
    refine h.pushed (h.rep.pushLatest hroom hplace (le_refl _) message) rfl rfl ?_ ?_
    · rw [OutboundState.contents_pushBack, OutboundState.contents, OutboundState.contents,
        OutboundState.filterMap_itemAt_insert hplace, OutboundState.itemAt, OrdMap.get?_insert,
        if_pos rfl]
      rfl
    · rintro _ ⟨⟩
      exact ⟨le_refl _, hplace⟩

theorem Inv.enqueueVideo (h : Inv capacity s) (display : Int) (key : Nat)
    (message : OutboundMessage) :
    Inv capacity (s.record (s.queue.enqueueVideo display key message).1
      (s.queue.enqueueVideo display key message).2 (.video display key, message) false
      (retiredBy s.queue display key)) := by
  obtain ⟨hrefused, error, hcase⟩ | ⟨hadmitted, hcase⟩ :=
    s.queue.enqueueVideo_cases display key message
  · have hretired : retiredBy s.queue display key = [] := by
      rw [retiredBy, if_pos hrefused]
    rw [hcase, hretired]
    exact h.refused error _ _
  · have hretired : retiredBy s.queue display key =
        s.queue.contents.filter (fun item => item.1.olderVideo display key) := by
      rw [retiredBy, hadmitted]
      rfl
    -- first the older frames leave, then the new one is refused or gets its place
    have hfirst := h.retired display key
    rw [hretired]
    obtain ⟨error, hcase⟩ | ⟨hnew, htracks, hbytes, hroom, hcase⟩ := hcase
    · rw [hcase]
      simpa [record, OutboundState.reject] using
        hfirst.refused error (.video display key, message) false
    · rw [hcase]
      have hpushed := hfirst.pushed
        (hfirst.rep.pushVideo (Nat.lt_of_lt_pred hroom) htracks hbytes hnew) rfl rfl
        (OutboundState.contents_pushBack _) (by nofun)
      simpa [record, OutboundState.pushBack] using hpushed

theorem Inv.step (h : Inv capacity s) {call : OutboundCall} (hstep : s.step call = some s')
    (hbarriers : s'.barriers < 2 ^ 64) : Inv capacity s' := by
  cases call with
  | enqueue message =>
      cases hstep
      exact h.enqueue message
  | enqueueBarrier message =>
      cases hstep
      exact h.enqueueBarrier message hbarriers
  | enqueueLatest key message =>
      cases hstep
      exact h.enqueueLatest key message
  | enqueueVideo display key message =>
      cases hstep
      exact h.enqueueVideo display key message
  | dequeue =>
      cases hstep
      exact h.dequeue

theorem inv_of_reach (h : (system capacity).Reach (fun _ _ => True) s)
    (hbarriers : s.barriers < 2 ^ 64) : Inv capacity s := by
  refine h.invariant (I := fun s => s.barriers < 2 ^ 64 → Inv capacity s)
    (fun _ => inv_new capacity) ?_ hbarriers
  intro s call s' ih _ hstep hlt
  exact (ih (lt_of_le_of_lt (barriers_le_step hstep) hlt)).step hstep hlt

/-- Dequeuing until the deque is empty takes the whole line. -/
theorem Inv.drain (h : Inv capacity s) {n : Nat} (hn : s.queue.entries.length = n) :
    ∃ t, (system capacity).runFrom s (List.replicate n .dequeue) = some t ∧
      t.queue.entries = [] ∧ t.dequeued = s.line ∧ t.accepted = s.accepted := by
  induction n generalizing s with
  | zero =>
      have hempty := List.length_eq_zero_iff.mp hn
      refine ⟨s, rfl, hempty, ?_, rfl⟩
      rw [line, OutboundState.contents, hempty, List.filterMap_nil, List.append_nil]
  | succ n ih =>
      obtain ⟨hempty, -⟩ | ⟨item, q, hdequeue, hcontents, -, hlength, -⟩ :=
        OutboundState.dequeue_spec h.rep
      · rw [hempty] at hn
        cases hn
      · have hnext := h.dequeue
        rw [hdequeue] at hnext
        obtain ⟨t, hrun, hempty, hdequeued, haccepted⟩ := ih hnext (by
          rw [hlength] at hn
          exact Nat.succ.inj hn)
        refine ⟨t, ?_, hempty, ?_, haccepted⟩
        · rw [List.replicate_succ, TSys.runFrom,
            show (system capacity).step s .dequeue = some { s with
              queue := s.queue.dequeue.1, dequeued := s.dequeued ++ s.queue.dequeue.2.toList }
              from rfl, hdequeue]
          exact hrun
        · rw [hdequeued, line, line, hcontents]
          simp

/-- What the queue promises in a state of its run. -/
structure Ordered (capacity : Nat) (s : OutboundRun) : Prop where
  keys : ∀ key, s.queue.latest.contains key = true ↔ .latest key ∈ s.queue.entries
  once : (s.queue.entries.filterMap OutboundState.latestKey).Nodup
  bounded : s.queue.entries.length ≤ max capacity 1
  tracks : s.queue.videoEntries.length ≤ maxPendingVideoTracks
  bytes : s.queue.videoBytes ≤ maxPendingVideoBytes
  oneEach : (s.queue.videoEntries.map OutboundState.trackOf).Nodup
  /-- a frame that is accepted leaves a slot free -/
  freeSlot : ∀ display key message q, s.queue.enqueueVideo display key message = (q, .pushed) →
    q.entries.length < max capacity 1
  /-- `dequeue` takes the first of the line -/
  next : s.queue.dequeue.2 = s.queue.contents.head?
  /-- as many calls of `dequeue` as there are entries take the whole line -/
  drained : ∃ t, (system capacity).runFrom s
      (List.replicate s.queue.entries.length .dequeue) = some t ∧
    t.queue.entries = [] ∧ t.dequeued = s.line ∧ t.accepted = s.accepted
  /-- the reliable messages of the line are those that were accepted, in that order -/
  reliable : s.line.filter (fun item => decide (Fixed item)) =
    (s.accepted.map Prod.fst).filter (fun item => decide (Fixed item))
  /-- new content takes the place of the old -/
  replaced : ∀ key message q, s.queue.enqueueLatest key message = (q, .replaced) →
    ∃ front old rest,
      s.queue.contents = front ++ (.latest (s.queue.generationKey key), old) :: rest ∧
      q.contents = front ++ (.latest (s.queue.generationKey key), message) :: rest
  /-- what a place holds is the content that was accepted last for it -/
  newest : ∀ item ∈ s.queue.contents, ∀ key, item.1 = .latest key →
    s.newestAt (.latest key) = some item
  /-- what is accepted is in the line, unless it was replaced or retired -/
  conserved : (s.accepted.map Prod.fst).Perm (s.line ++ s.dropped)
  /-- a barrier parts the line as it parts what was accepted -/
  barrier : ∀ before b after, s.accepted = before ++ (b, true) :: after →
    ∃ x y d₁ d₂, s.line = x ++ b :: y ∧ (before.map Prod.fst).Perm (x ++ d₁) ∧
      (after.map Prod.fst).Perm (y ++ d₂) ∧ s.dropped.Perm (d₁ ++ d₂)

theorem Inv.freeSlot (h : Inv capacity s) {display : Int} {key : Nat} {message : OutboundMessage}
    {q : OutboundState} (hpushed : s.queue.enqueueVideo display key message = (q, .pushed)) :
    q.entries.length < max capacity 1 := by
  obtain ⟨-, error, hcase⟩ | ⟨-, ⟨error, hcase⟩ | ⟨-, -, -, hroom, hcase⟩⟩ :=
    s.queue.enqueueVideo_cases display key message
  · rw [hcase] at hpushed
    cases hpushed
  · rw [hcase] at hpushed
    cases hpushed
  · rw [hcase] at hpushed
    cases hpushed
    rw [List.length_append, List.length_singleton, ← h.capacity]
    exact Nat.add_lt_of_lt_sub hroom

theorem Inv.next (h : Inv capacity s) : s.queue.dequeue.2 = s.queue.contents.head? := by
  obtain ⟨hempty, hdequeue⟩ | ⟨item, q, hdequeue, hcontents, -⟩ :=
    OutboundState.dequeue_spec h.rep
  · rw [hdequeue, OutboundState.contents, hempty]
    rfl
  · rw [hdequeue, hcontents]
    rfl

theorem Inv.keepsPlace (h : Inv capacity s) {key : Nat} {message : OutboundMessage}
    {q : OutboundState} (hreplaced : s.queue.enqueueLatest key message = (q, .replaced)) :
    ∃ front old rest,
      s.queue.contents = front ++ (.latest (s.queue.generationKey key), old) :: rest ∧
      q.contents = front ++ (.latest (s.queue.generationKey key), message) :: rest := by
  obtain ⟨error, hcase, -⟩ | ⟨-, hcontains, hcase⟩ | ⟨-, -, -, hcase⟩ :=
    s.queue.enqueueLatest_cases key message
  · rw [hcase] at hreplaced
    cases hreplaced
  · obtain ⟨old, hold⟩ := OrdMap.contains_iff.mp hcontains
    obtain ⟨front, rest, hcontents, -, hnew⟩ := h.rep.contents_replace hold
    rw [hcase] at hreplaced
    cases hreplaced
    exact ⟨front, old, rest, hcontents, hnew _ _⟩
  · rw [hcase] at hreplaced
    cases hreplaced

/-- Every run of calls with fewer than `2 ^ 64` barriers keeps the order of the queue. -/
theorem ordered_of_reach (h : (system capacity).Reach (fun _ _ => True) s)
    (hbarriers : s.barriers < 2 ^ 64) : Ordered capacity s where
  keys := (inv_of_reach h hbarriers).rep.keys
  once := (inv_of_reach h hbarriers).rep.nodup
  bounded := (inv_of_reach h hbarriers).capacity ▸ (inv_of_reach h hbarriers).rep.capacity
  tracks := (inv_of_reach h hbarriers).rep.tracks
  bytes := (inv_of_reach h hbarriers).rep.bytes
  oneEach := (inv_of_reach h hbarriers).rep.oneEach
  freeSlot := fun _ _ _ _ => (inv_of_reach h hbarriers).freeSlot
  next := (inv_of_reach h hbarriers).next
  drained := (inv_of_reach h hbarriers).drain rfl
  reliable := (inv_of_reach h hbarriers).reliable
  replaced := fun _ _ _ => (inv_of_reach h hbarriers).keepsPlace
  newest := (inv_of_reach h hbarriers).newest
  conserved := (inv_of_reach h hbarriers).lawful.conserved
  barrier := by
    intro before b after haccepted
    obtain ⟨-, x, y, d₁, d₂, hline, hbefore, hafter, hdropped, -⟩ :=
      (inv_of_reach h hbarriers).lawful.cut before b after haccepted
    exact ⟨x, y, d₁, d₂, hline, hbefore, hafter, hdropped⟩

def sampleMessage (bytes : Bytes) : OutboundMessage :=
  { bytes := bytes, kind := "sample", encrypt := true, completion := none }

/-- A replaced message in front of a barrier, the same key behind it, and a retired frame. -/
def sampleCalls : List OutboundCall :=
  [.enqueueLatest 7 (sampleMessage [1]), .enqueueVideo 0 1 (sampleMessage [2]),
    .enqueueLatest 7 (sampleMessage [3]), .enqueueBarrier (sampleMessage [4]),
    .enqueueLatest 7 (sampleMessage [5]), .enqueueVideo 0 2 (sampleMessage [6]),
    .dequeue, .enqueue (sampleMessage [7])]

def sampleRun : OutboundRun := ((system 8).run sampleCalls).getD (new 8)

theorem ordered_of_sampleCalls :
    (system 8).run sampleCalls = some sampleRun ∧ sampleRun.barriers = 1 ∧
      sampleRun.dropped.length = 2 ∧ sampleRun.dequeued.length = 1 ∧ Ordered 8 sampleRun := by
  have hrun : (system 8).run sampleCalls = some sampleRun := by decide +kernel
  exact ⟨hrun, by decide +kernel, by decide +kernel, by decide +kernel,
    ordered_of_reach (TSys.reach_of_any_run sampleCalls hrun) (by decide +kernel)⟩

end OutboundRun

end HbbCommon.Outbound
