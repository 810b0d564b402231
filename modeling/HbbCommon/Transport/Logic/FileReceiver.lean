import HbbCommon.Transport.FileTransfer

/-!
# What a file receiver accepts

The receiver keeps two things together: the offset it expects and the hash of what it has
seen. A refused chunk moves neither, an accepted one moves both, so the accepted chunks lie
end to end and the hasher has absorbed their data behind the prefix it was resumed with.
-/

namespace HbbCommon.Transport

open HbbCommon.Base

inductive ReceiverCall
  | acceptChunk (chunk : FileChunk)
  | cancel
  deriving DecidableEq

/-- What the hasher of a resumed transfer has absorbed. -/
def resumedPrefix (resumeState : Option FileResumeState) : Bytes :=
  resumeState.elim [] (fun state => state.hasher.absorbed)

/-- The chunks lie one behind the other, the first at `offset`. -/
def EndToEnd : Nat → List FileChunk → Prop
  | _, [] => True
  | offset, chunk :: chunks =>
      chunk.offset.toNat = offset ∧ EndToEnd (offset + chunk.data.length) chunks

def chunkData (chunks : List FileChunk) : Bytes := (chunks.map FileChunk.data).flatten

namespace FileTransferReceiver

/-- The receiver after a call, and the chunk when it is accepted. -/
def call (r : FileTransferReceiver) : ReceiverCall → FileTransferReceiver × Option FileChunk
  | .acceptChunk chunk =>
      match r.acceptChunk chunk with
      | (r, .ok _) => (r, some chunk)
      | (r, .error _) => (r, none)
  | .cancel => (r.cancel, none)

/-- The receiver after the calls, and the chunks it accepted. -/
def runCalls (r : FileTransferReceiver) :
    List ReceiverCall → FileTransferReceiver × List FileChunk
  | [] => (r, [])
  | c :: calls =>
      let (r, chunk) := r.call c
      let (r, chunks) := r.runCalls calls
      (r, chunk.toList ++ chunks)

/-! ## One call -/

theorem checkedAdd_eq_some_iff {offset next : UInt64} {length : Nat} :
    checkedAdd offset length = some next ↔ next.toNat = offset.toNat + length := by
  unfold checkedAdd
  constructor
  · intro h
    split at h
    · rename_i hfits
      cases h
      exact UInt64.toNat_ofNat_of_lt hfits
    · cases h
  · intro h
    have hfits : offset.toNat + length < 2 ^ 64 := h ▸ next.toNat_lt
    rw [if_pos hfits, ← h, UInt64.ofNat_toNat]

/-- A chunk is refused, and then nothing changes, or it lies at the expected offset inside
the file. -/
inductive Accepts (r : FileTransferReceiver) (chunk : FileChunk) :
    FileTransferReceiver × Except FileTransferError FileTransferProgress → Prop
  | refused (error : FileTransferError) : Accepts r chunk (r, .error error)
  | accepted {next : UInt64} (open_ : r.cancelled = false)
      (transfer : chunk.transferId = r.metadata.transferId)
      (offset : chunk.offset = r.expectedOffset) (some_ : chunk.data ≠ [])
      (next_eq : next.toNat = r.expectedOffset.toNat + chunk.data.length)
      (inside : next ≤ r.metadata.fileSize) :
      Accepts r chunk
        ({ r with hasher := r.hasher.update chunk.data, expectedOffset := next },
          .ok { completedBytes := next, totalBytes := r.metadata.fileSize })

theorem acceptChunk_accepts (r : FileTransferReceiver) (chunk : FileChunk) :
    r.Accepts chunk (r.acceptChunk chunk) := by
  unfold acceptChunk
  split_ifs with hcancelled htransfer hoffset hsize
  · exact .refused _
  · exact .refused _
  · exact .refused _
  · exact .refused _
  · split
    · exact .refused _
    · rename_i next hnext
      split_ifs with hinside
      · exact .refused _
      · exact .accepted (Bool.eq_false_of_not_eq_true hcancelled) (not_not.mp htransfer)
          (not_not.mp hoffset) (fun h => hsize (.inl h)) (checkedAdd_eq_some_iff.mp hnext)
          (UInt64.not_lt.mp hinside)

/-- A refused chunk changes nothing. -/
theorem acceptChunk_error {r r' : FileTransferReceiver} {chunk : FileChunk}
    {error : FileTransferError} (h : r.acceptChunk chunk = (r', .error error)) : r' = r := by
  have haccepts := r.acceptChunk_accepts chunk
  rw [h] at haccepts
  cases haccepts
  rfl

/-! ## A run of calls -/

/-- What the calls do to the receiver. -/
structure Ran (r : FileTransferReceiver) (calls : List ReceiverCall)
    (result : FileTransferReceiver × List FileChunk) : Prop where
  metadata : result.1.metadata = r.metadata
  endToEnd : EndToEnd r.expectedOffset.toNat result.2
  expected : result.1.expectedOffset.toNat =
    r.expectedOffset.toNat + (chunkData result.2).length
  inside : r.expectedOffset ≤ r.metadata.fileSize →
    result.1.expectedOffset ≤ r.metadata.fileSize
  hasher : result.1.hasher.absorbed = r.hasher.absorbed ++ chunkData result.2
  cancelled : result.1.cancelled = true ↔ r.cancelled = true ∨ .cancel ∈ calls
  closed : r.cancelled = true → result.2 = []

theorem runCalls_ran (r : FileTransferReceiver) (calls : List ReceiverCall) :
    r.Ran calls (r.runCalls calls) := by
  induction calls generalizing r with
  | nil =>
      refine ⟨rfl, trivial, rfl, id, (List.append_nil _).symm, ?_, fun _ => rfl⟩
      simp [runCalls]
  | cons c calls ih =>
      cases c with
      | cancel =>
          obtain ⟨hmetadata, hend, hexpected, hinside, hhasher, hcancelled, hclosed⟩ := ih r.cancel
          refine ⟨hmetadata, hend, hexpected, hinside, hhasher, ?_, fun _ => hclosed rfl⟩
          show (r.cancel.runCalls calls).1.cancelled = true ↔ _
          rw [hcancelled]
          simp [cancel]
      | acceptChunk chunk =>
          have haccepts := r.acceptChunk_accepts chunk
          simp only [runCalls, call]
          generalize r.acceptChunk chunk = result at haccepts
          cases haccepts with
          | refused error =>
              obtain ⟨hmetadata, hend, hexpected, hinside, hhasher, hcancelled, hclosed⟩ := ih r
              refine ⟨hmetadata, hend, hexpected, hinside, hhasher, ?_, hclosed⟩
              simpa using hcancelled
          | @accepted next hopen htransfer hoffset hdata hnext hinside =>
              obtain ⟨hmetadata, hend, hexpected, hlast, hhasher, hcancelled, -⟩ :=
                ih { r with hasher := r.hasher.update chunk.data, expectedOffset := next }
              refine ⟨hmetadata, ⟨by rw [hoffset], ?_⟩, ?_, fun _ => hlast hinside, ?_, ?_, ?_⟩
              · rwa [← hnext]
              · simp only [Option.toList_some, List.singleton_append, chunkData, List.map_cons,
                  List.flatten_cons, List.length_append] at hexpected ⊢
                rw [hexpected, hnext, Nat.add_assoc]
              · simp only [Option.toList_some, List.singleton_append, chunkData, List.map_cons,
                  List.flatten_cons, Sha256.update] at hhasher ⊢
                rw [hhasher, List.append_assoc]
              · simpa using hcancelled
              · intro hclosed
                rw [hopen] at hclosed
                cases hclosed

theorem runCalls_append (r : FileTransferReceiver) (before after : List ReceiverCall) :
    (r.runCalls (before ++ after)).2 =
      (r.runCalls before).2 ++ ((r.runCalls before).1.runCalls after).2 := by
  induction before generalizing r with
  | nil => rfl
  | cons c before ih => simp only [List.cons_append, runCalls, ih, List.append_assoc]

/-- Behind a cancellation the receiver is closed. -/
theorem runCalls_cancel (r : FileTransferReceiver) (before after : List ReceiverCall) :
    (r.runCalls (before ++ .cancel :: after)).2 = (r.runCalls before).2 := by
  rw [runCalls_append]
  have hclosed := ((r.runCalls before).1.cancel.runCalls_ran after).closed rfl
  simp only [runCalls, call, hclosed, Option.toList_none, List.append_nil]

/-- A receiver starts at the resume offset, with the hasher of the resume state. -/
theorem start_ok {metadata : FileTransferMetadata} {maxFileBytes : UInt64} {userPermitted : Bool}
    {resumeState : Option FileResumeState} {r : FileTransferReceiver}
    (h : start metadata maxFileBytes userPermitted resumeState = .ok r) :
    r = { metadata := metadata, expectedOffset := metadata.resumeOffset
          hasher := ⟨resumedPrefix resumeState⟩, cancelled := false } ∧
      metadata.resumeOffset ≤ metadata.fileSize := by
  simp only [start, check_eq_ok, bind_eq_ok] at h
  obtain ⟨-, _, hvalid, hstart⟩ := h
  simp only [validateMetadata, bind_eq_ok, check_eq_ok] at hvalid
  obtain ⟨-, -, -, -, -, hresume, -⟩ := hvalid
  refine ⟨?_, UInt64.not_lt.mp hresume⟩
  split at hstart
  · split at hstart
    · cases hstart
    · cases hstart
      rfl
  · split at hstart
    · cases hstart
    · rename_i state
      split at hstart
      · cases hstart
      · cases hstart
        rfl

/-- For every run of calls: a refused chunk changes nothing; the accepted chunks lie end to
end from the resume offset on and inside the file, none of them behind a cancellation; and
`finish` returns the metadata exactly when the transfer was not cancelled, the chunks reach
the declared size, and the resumed prefix and their data have the declared hash. -/
theorem receiver_integrity (hash : Bytes → FixedBytes 32) {metadata : FileTransferMetadata}
    {maxFileBytes : UInt64} {userPermitted : Bool} {resumeState : Option FileResumeState}
    {r : FileTransferReceiver}
    (hstart : start metadata maxFileBytes userPermitted resumeState = .ok r)
    (calls : List ReceiverCall) :
    (∀ (s s' : FileTransferReceiver) (chunk : FileChunk) (error : FileTransferError),
      s.acceptChunk chunk = (s', .error error) → s' = s) ∧
    EndToEnd metadata.resumeOffset.toNat (r.runCalls calls).2 ∧
    metadata.resumeOffset.toNat + (chunkData (r.runCalls calls).2).length ≤
      metadata.fileSize.toNat ∧
    (∀ before after, calls = before ++ .cancel :: after →
      (r.runCalls calls).2 = (r.runCalls before).2) ∧
    ∀ result, (r.runCalls calls).1.finish hash = .ok result ↔
      result = metadata ∧ .cancel ∉ calls ∧
      metadata.resumeOffset.toNat + (chunkData (r.runCalls calls).2).length =
        metadata.fileSize.toNat ∧
      hash (resumedPrefix resumeState ++ chunkData (r.runCalls calls).2) = metadata.sha256 := by
  obtain ⟨rfl, hresume⟩ := start_ok hstart
  have hran := runCalls_ran
    { metadata := metadata, expectedOffset := metadata.resumeOffset
      hasher := ⟨resumedPrefix resumeState⟩, cancelled := false } calls
  refine ⟨fun _ _ _ _ h => acceptChunk_error h, hran.endToEnd, ?_, ?_, ?_⟩
  · rw [← hran.expected]
    exact UInt64.le_iff_toNat_le.mp (hran.inside hresume)
  · rintro before after rfl
    exact runCalls_cancel _ before after
  · intro result
    have hcancelled := hran.cancelled
    have hexpected := hran.expected
    have hhasher := hran.hasher
    have hmetadata := hran.metadata
    generalize runCalls _ calls = run at hcancelled hexpected hhasher hmetadata ⊢
    obtain ⟨⟨_, expectedOffset, hasher, cancelled⟩, chunks⟩ := run
    dsimp only at hcancelled hexpected hhasher hmetadata ⊢
    subst hmetadata
    simp only [finish, check_eq_ok, Sha256.finalize, hhasher, ← hexpected, not_not, hcancelled,
      Except.ok.injEq, UInt64.toNat_inj, Bool.false_eq_true, false_or]
    constructor
    · rintro ⟨hopen, hsize, hhash, rfl⟩
      exact ⟨rfl, hopen, hsize, hhash⟩
    · rintro ⟨rfl, hopen, hsize, hhash⟩
      exact ⟨hopen, hsize, hhash, rfl⟩

/-- A stand-in for SHA-256: the first 32 bytes, padded with zeros. -/
def sampleHash (bytes : Bytes) : FixedBytes 32 :=
  ⟨(bytes ++ List.replicate 32 0).take 32, by simp⟩

def sampleMetadata : FileTransferMetadata :=
  { transferId := .replicate 16 1, fileName := "a", fileSize := 5, resumeOffset := 2
    sha256 := sampleHash [9, 9, 1, 2, 3] }

def sampleReceiver : FileTransferReceiver :=
  { metadata := sampleMetadata, expectedOffset := 2, hasher := ⟨[9, 9]⟩, cancelled := false }

/-- The middle chunk is refused. -/
def sampleReceiverCalls : List ReceiverCall :=
  [.acceptChunk { transferId := .replicate 16 1, offset := 2, data := [1, 2] },
    .acceptChunk { transferId := .replicate 16 1, offset := 5, data := [3] },
    .acceptChunk { transferId := .replicate 16 1, offset := 4, data := [3] }]

theorem receiver_integrity_resumed :
    start sampleMetadata 10 true (some { offset := 2, hasher := ⟨[9, 9]⟩ }) = .ok sampleReceiver ∧
      (sampleReceiver.runCalls sampleReceiverCalls).1.finish sampleHash = .ok sampleMetadata := by
  have hstart : start sampleMetadata 10 true (some { offset := 2, hasher := ⟨[9, 9]⟩ }) =
      .ok sampleReceiver := by
    decide +kernel
  obtain ⟨-, -, -, -, hfinish⟩ := receiver_integrity sampleHash hstart sampleReceiverCalls
  exact ⟨hstart, (hfinish _).mpr ⟨rfl, by decide, by decide +kernel, by decide +kernel⟩⟩

end FileTransferReceiver

end HbbCommon.Transport
