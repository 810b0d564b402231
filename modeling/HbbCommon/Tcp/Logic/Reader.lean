import HbbCommon.Tcp.Reader
import HbbCommon.Tcp.Logic.Streams

/-!
# What comes of a reader

A reader that is polled until nothing more comes of it returns what its bytes open to: the
frames of a readable buffer first, then those of each chunk. A reader that starts with the
socket puts its first chunk behind the buffer. In the framed mode a frame is the same
wherever the chunks are cut.
-/

namespace HbbCommon.Tcp

open HbbCommon.Base
open HbbCommon.Transport (Bytes)

namespace BytesCodec

variable {c c' : BytesCodec} {buf buf' : Bytes}

/-! ## More bytes behind the buffer -/

/-- A header that is cut is waited for; one that is all there is read alike whatever
stands behind it. -/
theorem decodeHead_append (c : BytesCodec) (buf : Bytes) :
    c.decodeHead buf = .ok (none, buf) ∨
      ((∀ rest, c.decodeHead buf ≠ .ok (none, rest)) ∧ ∀ more, c.decodeHead (buf ++ more) =
        (c.decodeHead buf).map (fun result => (result.1, result.2 ++ more))) := by
  cases buf with
  | nil => exact .inl rfl
  | cons b tail =>
      by_cases hcut : (b :: tail).length < (b &&& 0x3).toNat + 1
      · exact .inl (by simp only [decodeHead, if_pos hcut])
      · have hlength := Nat.not_lt.mp hcut
        right
        rw [decodeHead_eq c tail rfl hlength]
        constructor
        · intro rest
          split <;> simp
        · intro more
          have hmore : (b &&& 0x3).toNat + 1 ≤ (b :: (tail ++ more)).length := by
            rw [← List.cons_append, List.length_append]
            omega
          rw [List.cons_append, decodeHead_eq c (tail ++ more) rfl hmore, ← List.cons_append,
            List.take_append_of_le_length hlength, List.drop_append_of_le_length hlength]
          split <;> rfl

theorem decodeBody_append {n : Nat} (h : ¬ buf.length < n) (more : Bytes) :
    c.decodeBody n (buf ++ more) =
      ({ c with state := .head }, buf.drop n ++ more, .ok (some (buf.take n))) := by
  have hlength : n ≤ buf.length := Nat.not_lt.mp h
  have hmore : ¬ (buf ++ more).length < n := by
    rw [List.length_append]
    omega
  simp only [decodeBody, decodeData, if_neg hmore, List.take_append_of_le_length hlength,
    List.drop_append_of_le_length hlength]

/-- What `decode` does in the framed mode, and that it does the same with more bytes behind
the buffer, unless it waits for them. -/
inductive Framed (c : BytesCodec) (buf : Bytes) :
    BytesCodec × Bytes × Except CodecError (Option Bytes) → Prop
  | frame {buf' data : Bytes}
      (append : ∀ more, c.decode (buf ++ more) =
        ({ c with state := .head }, buf' ++ more, .ok (some data))) :
      Framed c buf ({ c with state := .head }, buf', .ok (some data))
  | wait {c' : BytesCodec} {buf' : Bytes} (raw_eq : c'.raw = false)
      (append : ∀ more, c.decode (buf ++ more) = c'.decode (buf' ++ more)) :
      Framed c buf (c', buf', .ok none)
  | error {error : CodecError}
      (append : ∀ more, c.decode (buf ++ more) = (c, buf ++ more, .error error)) :
      Framed c buf (c, buf, .error error)

theorem decode_data {n : Nat} (hraw : c.raw = false) (hstate : c.state = .data n) (buf : Bytes) :
    c.decode buf = c.decodeBody n buf := by
  rw [decode, if_neg (by rw [hraw]; exact Bool.false_ne_true), hstate]

theorem decode_head (hraw : c.raw = false) (hstate : c.state = .head) (buf : Bytes) :
    c.decode buf = match c.decodeHead buf with
      | .error error => (c, buf, .error error)
      | .ok (none, buf) => (c, buf, .ok none)
      | .ok (some n, buf) => { c with state := .data n }.decodeBody n buf := by
  rw [decode, if_neg (by rw [hraw]; exact Bool.false_ne_true)]
  generalize c.state = state at hstate ⊢
  subst hstate
  rfl

theorem decode_framed (hraw : c.raw = false) (buf : Bytes) : c.Framed buf (c.decode buf) := by
  cases hstate : c.state with
  | data n =>
      have hdecode := decode_data hraw hstate
      rw [hdecode]
      by_cases hshort : buf.length < n
      · simp only [decodeBody, decodeData, if_pos hshort]
        exact .wait hraw (fun _ => rfl)
      · have hall := decodeBody_append (c := c) hshort []
        rw [List.append_nil, List.append_nil] at hall
        rw [hall]
        exact .frame (fun more => (hdecode _).trans (decodeBody_append hshort more))
  | head =>
      have hdecode := decode_head hraw hstate
      obtain hwait | ⟨hread, hmore⟩ := decodeHead_append c buf
      · rw [hdecode, hwait]
        exact .wait hraw (fun _ => rfl)
      · cases hhead : c.decodeHead buf with
        | error error =>
            rw [hdecode, hhead]
            refine .error (fun more => ?_)
            rw [hdecode, hmore, hhead]
            rfl
        | ok result =>
            obtain ⟨_ | n, rest⟩ := result
            · exact absurd hhead (hread rest)
            · have happend : ∀ more, c.decode (buf ++ more) =
                  { c with state := .data n }.decodeBody n (rest ++ more) := by
                intro more
                rw [hdecode, hmore, hhead]
                rfl
              rw [hdecode, hhead]
              dsimp only
              by_cases hshort : rest.length < n
              · simp only [decodeBody, decodeData, if_pos hshort]
                refine .wait hraw (fun more => ?_)
                rw [happend, decode_data (c := { c with state := .data n }) hraw rfl]
              · have hall := decodeBody_append (c := { c with state := .data n }) hshort []
                rw [List.append_nil, List.append_nil] at hall
                rw [hall]
                exact .frame (fun more => (happend more).trans (decodeBody_append hshort more))

/-! ## One call at a time -/

theorem decodeAll_of_frame {data : Bytes} (h : c.decode buf = (c', buf', .ok (some data))) :
    c.decodeAll buf = ((c'.decodeAll buf').1, (c'.decodeAll buf').2.1,
      data :: (c'.decodeAll buf').2.2.1, (c'.decodeAll buf').2.2.2) := by
  rw [decodeAll]
  split <;> rename_i heq <;> rw [h] at heq <;> cases heq
  rfl

theorem decodeAll_of_wait (h : c.decode buf = (c', buf', .ok none)) :
    c.decodeAll buf = (c', buf', [], none) := by
  rw [decodeAll]
  split <;> rename_i heq <;> rw [h] at heq <;> cases heq
  rfl

theorem decodeAll_of_error {error : CodecError} (h : c.decode buf = (c', buf', .error error)) :
    c.decodeAll buf = (c', buf', [], some error) := by
  rw [decodeAll]
  split <;> rename_i heq <;> rw [h] at heq <;> cases heq
  rfl

/-- What is decoded before more bytes come is decoded first. -/
theorem decodeAll_append (hraw : c.raw = false) (buf more : Bytes) :
    c.decodeAll (buf ++ more) =
      match c.decodeAll buf with
      | (c', buf', frames, none) =>
          let (c'', buf'', later, error) := c'.decodeAll (buf' ++ more)
          (c'', buf'', frames ++ later, error)
      | (c', buf', frames, some error) => (c', buf' ++ more, frames, some error) := by
  induction hwork : c.work buf using Nat.strong_induction_on generalizing c buf with
  | _ work ih =>
      have hframed := decode_framed hraw buf
      generalize hdecode : c.decode buf = result at hframed
      cases hframed with
      | @frame buf' data append =>
          have hless := work_decode hdecode
          have hlater := ih _ (hwork ▸ hless) (c := { c with state := .head }) hraw buf' rfl
          rw [decodeAll_of_frame (append more), decodeAll_of_frame hdecode, hlater]
          generalize { c with state := .head }.decodeAll buf' = rest
          obtain ⟨c'', buf'', frames, _ | error⟩ := rest <;> rfl
      | @wait c' buf' _ append =>
          rw [decodeAll_of_wait hdecode, decodeAll, append, ← decodeAll]
          rfl
      | error append => rw [decodeAll_of_error hdecode, decodeAll_of_error (append more)]

/-- A call that returns no frame leaves what a second call leaves as well. -/
theorem decode_again {result : Except CodecError (Option Bytes)}
    (h : c.decode buf = (c', buf', result)) (hresult : ∀ data, result ≠ .ok (some data)) :
    c'.decode buf' = (c', buf', result) := by
  by_cases hraw : c.raw = true
  · have hdecode := h
    rw [decode, if_pos hraw] at h
    split at h
    · cases h
      exact hdecode
    · cases h
      exact absurd rfl (hresult buf)
  · have hframed := decode_framed (Bool.not_eq_true _ ▸ hraw) buf
    rw [h] at hframed
    cases hframed with
    | @frame _ data append => exact absurd rfl (hresult data)
    | wait _ append =>
        have happend := append []
        rw [List.append_nil, List.append_nil, h] at happend
        exact happend.symm
    | error append =>
        have happend := append []
        rwa [List.append_nil] at happend

/-- Where `decodeAll` ends, `decode` returns no frame. -/
theorem decode_decodeAll (c : BytesCodec) (buf : Bytes) :
    (c.decodeAll buf).1.decode (c.decodeAll buf).2.1 =
      ((c.decodeAll buf).1, (c.decodeAll buf).2.1,
        match (c.decodeAll buf).2.2.2 with
        | none => .ok none
        | some error => .error error) := by
  induction hwork : c.work buf using Nat.strong_induction_on generalizing c buf with
  | _ work ih =>
      generalize hdecode : c.decode buf = result
      obtain ⟨c', buf', error | _ | data⟩ := result
      · rw [decodeAll_of_error hdecode]
        exact decode_again hdecode (fun _ h => by cases h)
      · rw [decodeAll_of_wait hdecode]
        exact decode_again hdecode (fun _ h => by cases h)
      · rw [decodeAll_of_frame hdecode]
        exact ih _ (hwork ▸ work_decode hdecode) c' buf' rfl

/-- An error comes in the framed mode, and comes again whatever stands behind the buffer. -/
theorem decode_error_append {error : CodecError} (h : c.decode buf = (c', buf', .error error)) :
    c' = c ∧ buf' = buf ∧ ∀ more, c.decode (buf ++ more) = (c, buf ++ more, .error error) := by
  by_cases hraw : c.raw = true
  · rw [decode, if_pos hraw] at h
    split at h <;> cases h
  · have hframed := decode_framed (Bool.not_eq_true _ ▸ hraw) buf
    rw [h] at hframed
    cases hframed with
    | error append => exact ⟨rfl, rfl, append⟩

end BytesCodec

/-! ## What a list of frames opens to -/

/-- The key after the frames are opened one after another, and the messages of those that
open. -/
def openAll (box : Secretbox) : Option Encrypt → List Bytes → Option Encrypt × List Bytes
  | key, [] => (key, [])
  | key, bytes :: frames =>
      let (key', later) := openAll box (openWith box key bytes).1 frames
      (key', (openWith box key bytes).2.toOption.toList ++ later)

variable {box : Secretbox}

theorem openAll_append (key : Option Encrypt) (xs ys : List Bytes) :
    (openAll box key (xs ++ ys)).2 =
      (openAll box key xs).2 ++ (openAll box (openAll box key xs).1 ys).2 := by
  induction xs generalizing key with
  | nil => rfl
  | cons x xs ih =>
      simp only [List.cons_append, openAll, ih, List.append_assoc]

namespace FramedReadHalf

/-- A round of `next` opens the frame that the decoder returns. -/
theorem next_frame (box : Secretbox) {r : FramedReadHalf} {c : BytesCodec} {buf frame : Bytes} (eof : Bool)
    (h : r.codec.decode r.readBuf = (c, buf, .ok (some frame))) :
    r.next box eof =
      ({ codec := c, readBuf := buf, decrypt := (openWith box r.decrypt frame).1 },
        match (openWith box r.decrypt frame).2 with
        | .ok bytes => .item bytes
        | .error error => .failed (.decrypt error)) := by
  have hdecode : (if eof then r.codec.decodeEof r.readBuf else r.codec.decode r.readBuf) =
      (c, buf, .ok (some frame)) := by
    cases eof <;> simp [BytesCodec.decodeEof, h]
  obtain ⟨codec, readBuf, decrypt⟩ := r
  simp only [next, hdecode]
  cases decrypt with
  | none => rfl
  | some key =>
      simp only [openWith]
      split <;> rename_i heq <;> simp only [heq]

theorem next_wait {r : FramedReadHalf} {c : BytesCodec} {buf : Bytes}
    (h : r.codec.decode r.readBuf = (c, buf, .ok none)) :
    r.next box false = ({ r with codec := c, readBuf := buf }, .pending) := by
  simp [next, h]

/-- At the end of the stream the bytes that are left are an error. -/
theorem next_eof {r : FramedReadHalf} {c : BytesCodec} {buf : Bytes}
    (h : r.codec.decode r.readBuf = (c, buf, .ok none)) :
    r.next box true = ({ r with codec := c, readBuf := buf },
      if buf.isEmpty then .ended else .failed (.codec .bytesRemaining)) := by
  unfold next BytesCodec.decodeEof
  rw [h]
  dsimp only
  cases buf <;> rfl

theorem next_error {r : FramedReadHalf} {c : BytesCodec} {buf : Bytes} {error : CodecError}
    (eof : Bool) (h : r.codec.decode r.readBuf = (c, buf, .error error)) :
    r.next box eof = ({ r with codec := c, readBuf := buf }, .failed (.codec error)) := by
  have hdecode : (if eof then r.codec.decodeEof r.readBuf else r.codec.decode r.readBuf) =
      (c, buf, .error error) := by
    cases eof <;> simp [BytesCodec.decodeEof, h]
  simp only [next, hdecode]

end FramedReadHalf

namespace FramedRead

variable {closed : Bool} {r r' : FramedRead} {arrived arrived' : List Bytes} {msgs : List Bytes}

/-- A list of messages that some number of calls returns when nothing more arrives. -/
def Returnable (box : Secretbox) (closed : Bool) (r : FramedRead) (arrived : List Bytes)
    (msgs : List Bytes) : Prop :=
  ∃ n, r.received box closed n arrived = msgs

/-- The messages that come of a reader when it is polled on and on. -/
inductive Yields (box : Secretbox) (closed : Bool) : FramedRead → List Bytes → List Bytes → Prop
  | silent {r : FramedRead} {arrived : List Bytes}
      (h : ∀ n, r.received box closed n arrived = []) : Yields box closed r arrived []
  | item {r r' : FramedRead} {arrived arrived' msgs : List Bytes} {bytes : Bytes}
      (poll : r.poll box closed arrived = (r', arrived', .item bytes))
      (later : Yields box closed r' arrived' msgs) : Yields box closed r arrived (bytes :: msgs)
  | other {r r' : FramedRead} {arrived arrived' msgs : List Bytes} {result : Next}
      (poll : r.poll box closed arrived = (r', arrived', result))
      (hresult : ∀ bytes, result ≠ .item bytes)
      (later : Yields box closed r' arrived' msgs) : Yields box closed r arrived msgs

theorem received_item {bytes : Bytes} (n : Nat)
    (h : r.poll box closed arrived = (r', arrived', .item bytes)) :
    r.received box closed (n + 1) arrived = bytes :: r'.received box closed n arrived' := by
  rw [received, h]

theorem received_other {result : Next} (n : Nat)
    (h : r.poll box closed arrived = (r', arrived', result))
    (hresult : ∀ bytes, result ≠ .item bytes) :
    r.received box closed (n + 1) arrived = r'.received box closed n arrived' := by
  rw [received, h]
  cases result with
  | item bytes => exact absurd rfl (hresult bytes)
  | pending => rfl
  | failed error => rfl
  | ended => rfl

/-- The calls return what comes of the reader, from the front. -/
theorem Yields.returnable_iff (h : Yields box closed r arrived msgs) (some_ : List Bytes) :
    Returnable box closed r arrived some_ ↔ some_ <+: msgs := by
  induction h generalizing some_ with
  | silent h =>
      rw [List.prefix_nil]
      constructor
      · rintro ⟨n, rfl⟩
        exact h n
      · rintro rfl
        exact ⟨0, rfl⟩
  | item poll _ ih =>
      constructor
      · rintro ⟨_ | n, rfl⟩
        · exact List.nil_prefix
        · rw [received_item n poll]
          exact List.cons_prefix_cons.mpr ⟨rfl, (ih _).mp ⟨n, rfl⟩⟩
      · intro hprefix
        cases some_ with
        | nil => exact ⟨0, rfl⟩
        | cons first rest =>
            obtain ⟨rfl, hrest⟩ := List.cons_prefix_cons.mp hprefix
            obtain ⟨n, rfl⟩ := (ih _).mpr hrest
            exact ⟨n + 1, received_item n poll⟩
  | other poll hresult _ ih =>
      rw [← ih]
      constructor
      · rintro ⟨_ | n, rfl⟩
        · exact ⟨0, rfl⟩
        · exact ⟨n, (received_other n poll hresult).symm⟩
      · rintro ⟨n, rfl⟩
        exact ⟨n + 1, received_other n poll hresult⟩

/-- What comes of a reader is decided by its next poll. -/
theorem Yields.of_poll_eq (h : Yields box closed r' arrived' msgs)
    (heq : r.poll box closed arrived = r'.poll box closed arrived') :
    Yields box closed r arrived msgs := by
  cases h with
  | silent h =>
      refine .silent (fun n => ?_)
      cases n with
      | zero => rfl
      | succ n =>
          have hnext := h (n + 1)
          rw [received] at hnext ⊢
          rw [heq]
          exact hnext
  | item poll later => exact .item (heq.trans poll) later
  | other poll hresult later => exact .other (heq.trans poll) hresult later

/-- Where a poll returns no message and the same holds of what it leaves, none comes. -/
theorem Yields.of_invariant {P : FramedRead → List Bytes → Prop}
    (hP : ∀ r arrived, P r arrived → ∃ r' arrived' result,
      r.poll box closed arrived = (r', arrived', result) ∧ (∀ bytes, result ≠ .item bytes) ∧
      P r' arrived') (h : P r arrived) : Yields box closed r arrived [] := by
  refine .silent (fun n => ?_)
  induction n generalizing r arrived with
  | zero => rfl
  | succ n ih =>
      obtain ⟨r', arrived', result, hpoll, hresult, hnext⟩ := hP r arrived h
      rw [received_other n hpoll hresult]
      exact ih hnext

/-! ## A poll of a readable buffer -/

theorem poll_readable (hready : r.isReadable = true ∧ r.hasErrored = false) :
    r.poll box closed arrived = match r.decode box with
      | (r, some result) => (r, arrived, result)
      | (r, none) => r.read box closed arrived := by
  have hopen : ¬ r.hasErrored = true := by simp [hready.2]
  rw [poll, if_neg hopen]
  exact if_pos hready.1

theorem poll_reading (hreading : r.isReadable = false ∧ r.hasErrored = false) :
    r.poll box closed arrived = r.read box closed arrived := by
  rw [poll, if_neg (by simp [hreading.2]), if_neg (by simp [hreading.1])]

/-- A read of bytes is a poll of the buffer with the bytes behind it. -/
theorem poll_chunk (hreading : r.isReadable = false ∧ r.hasErrored = false) (chunk : Bytes) :
    r.poll box closed (chunk :: arrived) = (r.readChunk chunk).poll box closed arrived := by
  rw [poll_reading hreading, read]
  exact (poll_readable (r := r.readChunk chunk) ⟨rfl, hreading.2⟩).symm

/-- A buffer on which the decoder does the same is polled alike. -/
theorem poll_eq_of_decode {c : BytesCodec} {buf : Bytes}
    (hready : r.isReadable = true ∧ r.hasErrored = false)
    (h : r.half.codec.decode r.half.readBuf = c.decode buf) :
    r.poll box closed arrived =
      { r with half := { r.half with codec := c, readBuf := buf } }.poll box closed arrived := by
  have hdecode : r.decode box =
      { r with half := { r.half with codec := c, readBuf := buf } }.decode box := by
    simp only [decode, FramedReadHalf.next, BytesCodec.decodeEof, h]
  rw [poll_readable hready, hdecode]
  exact (poll_readable (r := ⟨⟨c, buf, r.half.decrypt⟩, r.isReadable, r.eof, r.hasErrored⟩)
    hready).symm

/-- A frame is taken off the buffer, and its message is returned if it opens. -/
theorem Yields.frame {c : BytesCodec} {buf frame : Bytes}
    (hready : r.isReadable = true ∧ r.hasErrored = false)
    (hdecode : r.half.codec.decode r.half.readBuf = (c, buf, .ok (some frame)))
    (later : Yields box closed { r with half :=
      { codec := c, readBuf := buf, decrypt := (openWith box r.half.decrypt frame).1 } }
      arrived msgs) :
    Yields box closed r arrived
      ((openWith box r.half.decrypt frame).2.toOption.toList ++ msgs) := by
  have hnext := FramedReadHalf.next_frame box r.eof hdecode
  have hpoll : r.poll box closed arrived = _ := poll_readable hready
  rw [FramedRead.decode, hnext] at hpoll
  cases hopen : (openWith box r.half.decrypt frame).2 with
  | ok bytes =>
      rw [hopen] at hpoll
      exact .item hpoll later
  | error error =>
      rw [hopen] at hpoll
      exact .other hpoll (fun _ => Next.noConfusion) later

/-- The frames of the buffer come first, and then what comes when they are gone. -/
theorem Yields.frames {c : BytesCodec} {buf : Bytes} {frames : List Bytes}
    {error : Option CodecError} (hready : r.isReadable = true ∧ r.hasErrored = false)
    (hdecode : r.half.codec.decodeAll r.half.readBuf = (c, buf, frames, error))
    (later : Yields box closed { r with half :=
      { codec := c, readBuf := buf, decrypt := (openAll box r.half.decrypt frames).1 } }
      arrived msgs) :
    Yields box closed r arrived ((openAll box r.half.decrypt frames).2 ++ msgs) := by
  induction hwork : r.half.codec.work r.half.readBuf using Nat.strong_induction_on
    generalizing r frames with
  | _ work ih =>
      have hend := BytesCodec.decode_decodeAll r.half.codec r.half.readBuf
      rw [hdecode] at hend
      generalize hfirst : r.half.codec.decode r.half.readBuf = result
      obtain ⟨c', buf', error' | _ | frame⟩ := result
      · rw [BytesCodec.decodeAll_of_error hfirst] at hdecode
        cases hdecode
        exact later.of_poll_eq (poll_eq_of_decode hready (hfirst.trans hend.symm))
      · rw [BytesCodec.decodeAll_of_wait hfirst] at hdecode
        cases hdecode
        exact later.of_poll_eq (poll_eq_of_decode hready (hfirst.trans hend.symm))
      · rw [BytesCodec.decodeAll_of_frame hfirst] at hdecode
        cases hdecode
        have hless := BytesCodec.work_decode hfirst
        rw [openAll, List.append_assoc]
        exact .frame hready hfirst (ih _ (hwork ▸ hless) hready rfl later rfl)

/-! ## Where no more messages come -/

/-- An open socket with nothing in it: the reader waits. -/
theorem Yields.waiting (hreading : r.isReadable = false ∧ r.hasErrored = false) :
    Yields box false r [] [] := by
  refine .of_invariant (P := fun r' arrived => r' = r ∧ arrived = []) ?_ ⟨rfl, rfl⟩
  rintro _ _ ⟨rfl, rfl⟩
  exact ⟨_, [], .pending, poll_reading hreading, fun _ => Next.noConfusion, rfl, rfl⟩

/-- After the end of the stream, with no frame left in the buffer. -/
theorem Yields.ended (heof : r.eof = true)
    (hdecode : r.isReadable = true → r.half.codec.decode r.half.readBuf =
      (r.half.codec, r.half.readBuf, .ok none)) : Yields box true r [] [] := by
  refine .of_invariant (P := fun r arrived => arrived = [] ∧ r.eof = true ∧
    (r.isReadable = true → r.half.codec.decode r.half.readBuf =
      (r.half.codec, r.half.readBuf, .ok none))) ?_ ⟨rfl, heof, hdecode⟩
  rintro r _ ⟨rfl, heof, hdecode⟩
  cases herrored : r.hasErrored with
  | true =>
      refine ⟨{ r with isReadable := false, hasErrored := false }, [], .ended, ?_,
        fun _ => Next.noConfusion, rfl, heof, fun h => absurd h Bool.false_ne_true⟩
      rw [poll, if_pos herrored]
  | false =>
      cases hreadable : r.isReadable with
      | false =>
          refine ⟨r, [], .ended, ?_, fun _ => Next.noConfusion, rfl, heof,
            fun h => absurd (hreadable.symm.trans h) Bool.false_ne_true⟩
          rw [poll_reading ⟨hreadable, herrored⟩, read, if_pos rfl, if_pos heof]
      | true =>
          have hrest := hdecode hreadable
          have hpoll : r.poll box true [] = _ := poll_readable ⟨hreadable, herrored⟩
          rw [decode, heof, FramedReadHalf.next_eof hrest] at hpoll
          cases hempty : r.half.readBuf.isEmpty with
          | true =>
              rw [hempty] at hpoll
              exact ⟨_, _, _, hpoll, fun _ => Next.noConfusion, rfl, rfl,
                fun h => absurd h Bool.false_ne_true⟩
          | false =>
              rw [hempty] at hpoll
              exact ⟨_, _, _, hpoll, fun _ => Next.noConfusion, rfl, rfl, fun _ => hrest⟩

/-- A header that is refused stays in front of whatever arrives. -/
theorem Yields.refused {error : CodecError}
    (hdecode : ∀ more, r.half.codec.decode (r.half.readBuf ++ more) =
      (r.half.codec, r.half.readBuf ++ more, .error error)) : Yields box closed r arrived [] := by
  refine .of_invariant (P := fun r _ => ∀ more, r.half.codec.decode (r.half.readBuf ++ more) =
    (r.half.codec, r.half.readBuf ++ more, .error error)) ?_ hdecode
  intro r arrived hdecode
  -- a readable buffer is refused again
  have hrefuse : ∀ r : FramedRead, (∀ more, r.half.codec.decode (r.half.readBuf ++ more) =
      (r.half.codec, r.half.readBuf ++ more, .error error)) →
      r.decode box = ({ r with hasErrored := true }, some (.failed (.codec error))) := by
    intro r hdecode
    have hnow := hdecode []
    rw [List.append_nil] at hnow
    rw [decode, FramedReadHalf.next_error _ hnow]
  cases herrored : r.hasErrored with
  | true =>
      refine ⟨{ r with isReadable := false, hasErrored := false }, arrived, .ended, ?_,
        fun _ => Next.noConfusion, hdecode⟩
      rw [poll, if_pos herrored]
  | false =>
      cases hreadable : r.isReadable with
      | true =>
          refine ⟨{ r with hasErrored := true }, arrived, .failed (.codec error), ?_,
            fun _ => Next.noConfusion, hdecode⟩
          rw [poll_readable ⟨hreadable, herrored⟩, hrefuse r hdecode]
      | false =>
          cases arrived with
          | nil =>
              rw [poll_reading ⟨hreadable, herrored⟩, read]
              cases closed with
              | false => exact ⟨r, [], .pending, rfl, fun _ => Next.noConfusion, hdecode⟩
              | true =>
                  cases heof : r.eof with
                  | true => exact ⟨r, [], .ended, rfl, fun _ => Next.noConfusion, hdecode⟩
                  | false =>
                      refine ⟨{ r.readEof with hasErrored := true }, [], .failed (.codec error),
                        ?_, fun _ => Next.noConfusion, hdecode⟩
                      rw [if_pos rfl, if_neg Bool.false_ne_true, hrefuse r.readEof hdecode]
                      rfl
          | cons chunk arrived =>
              have hchunk : ∀ more, (r.readChunk chunk).half.codec.decode
                  ((r.readChunk chunk).half.readBuf ++ more) = ((r.readChunk chunk).half.codec,
                    (r.readChunk chunk).half.readBuf ++ more, .error error) := by
                intro more
                have hmore := hdecode (chunk ++ more)
                rwa [← List.append_assoc] at hmore
              refine ⟨{ r.readChunk chunk with hasErrored := true }, arrived,
                .failed (.codec error), ?_, fun _ => Next.noConfusion, hchunk⟩
              rw [poll_reading ⟨hreadable, herrored⟩, read, hrefuse _ hchunk]

/-! ## What comes of a reader -/

/-- The frames of the chunks that a decoder reads one after another. -/
def framesOf (c : BytesCodec) (buf : Bytes) (chunks : List Bytes) : List Bytes :=
  (c.feed buf chunks).2.2.1

theorem framesOf_cons (c : BytesCodec) (buf chunk : Bytes) (chunks : List Bytes) :
    framesOf c buf (chunk :: chunks) = (c.decodeAll (buf ++ chunk)).2.2.1 ++
      if (c.decodeAll (buf ++ chunk)).2.2.2 = none then
        framesOf (c.decodeAll (buf ++ chunk)).1 (c.decodeAll (buf ++ chunk)).2.1 chunks
      else [] := by
  rw [framesOf, BytesCodec.feed]
  generalize c.decodeAll (buf ++ chunk) = result
  obtain ⟨c', buf', frames, _ | error⟩ := result
  · rfl
  · simp

theorem Yields.atEnd (hready : r.isReadable = true ∧ r.hasErrored = false) (heof : r.eof = true) :
    Yields box true r [] (openAll box r.half.decrypt
      (r.half.codec.decodeAll r.half.readBuf).2.2.1).2 := by
  have hend := BytesCodec.decode_decodeAll r.half.codec r.half.readBuf
  generalize hdecode : r.half.codec.decodeAll r.half.readBuf = result at hend
  obtain ⟨c, buf, frames, error⟩ := result
  rw [← List.append_nil (openAll box r.half.decrypt frames).2]
  refine .frames hready hdecode ?_
  cases error with
  | none => exact .ended heof (fun _ => hend)
  | some error => exact .refused (BytesCodec.decode_error_append hend).2.2

/-- At the end of the stream a poll has a result. -/
theorem decode_eof (box : Secretbox) (heof : r.eof = true) : ∃ r' result, r.decode box = (r', some result) := by
  have hpending := FramedReadHalf.next_eof_ne_pending box r.half
  rw [decode, heof]
  generalize r.half.next box true = outcome at hpending
  obtain ⟨half, _ | bytes | (error | error) | _⟩ := outcome
  · exact absurd rfl hpending
  · exact ⟨_, _, rfl⟩
  · exact ⟨_, _, rfl⟩
  · exact ⟨_, _, rfl⟩
  · exact ⟨_, _, rfl⟩

/-- A reader that reads the end of the stream. -/
theorem Yields.closing (box : Secretbox) (hreading : r.isReadable = false ∧ r.hasErrored = false)
    (heof : r.eof = false) : Yields box true r [] (openAll box r.half.decrypt
      (r.half.codec.decodeAll r.half.readBuf).2.2.1).2 := by
  refine (Yields.atEnd (r := r.readEof) ⟨rfl, hreading.2⟩ rfl).of_poll_eq ?_
  obtain ⟨r', result, hdecode⟩ := decode_eof box (r := r.readEof) rfl
  rw [poll_reading hreading, read, if_pos rfl, if_neg (by rw [heof]; exact Bool.false_ne_true),
    poll_readable (r := r.readEof) ⟨rfl, hreading.2⟩, hdecode]
  rfl

/-- With no frame in its buffer a readable reader goes on to read. -/
theorem Yields.exhausted (hready : r.isReadable = true ∧ r.hasErrored = false)
    (heof : r.eof = false) (hdecode : r.half.codec.decode r.half.readBuf =
      (r.half.codec, r.half.readBuf, .ok none))
    (later : Yields box closed { r with isReadable := false } arrived msgs) :
    Yields box closed r arrived msgs := by
  have hwait : r.decode box = ({ r with isReadable := false }, none) := by
    rw [decode, heof, FramedReadHalf.next_wait hdecode]
  refine later.of_poll_eq ?_
  rw [poll_readable hready, hwait]
  exact (poll_reading (r := ⟨r.half, false, r.eof, r.hasErrored⟩) ⟨rfl, hready.2⟩).symm

theorem framesOf_chunk (c : BytesCodec) (buf chunk : Bytes) (chunks : List Bytes) :
    framesOf c [] ((buf ++ chunk) :: chunks) = framesOf c buf (chunk :: chunks) := by
  rw [framesOf_cons, framesOf_cons, List.nil_append]

/-- A reader with a readable buffer returns what the buffer and then the chunks open to. -/
theorem Yields.readable (hready : r.isReadable = true ∧ r.hasErrored = false)
    (heof : r.eof = false) : Yields box closed r arrived (openAll box r.half.decrypt
      (framesOf r.half.codec [] (r.half.readBuf :: arrived))).2 := by
  induction arrived generalizing r with
  | nil =>
      have hend := BytesCodec.decode_decodeAll r.half.codec r.half.readBuf
      rw [framesOf_cons, List.nil_append, openAll_append]
      generalize hdecode : r.half.codec.decodeAll r.half.readBuf = result at hend
      obtain ⟨c, buf, frames, error⟩ := result
      refine .frames hready hdecode ?_
      cases error with
      | some error => exact .refused (BytesCodec.decode_error_append hend).2.2
      | none =>
          refine .exhausted hready heof hend ?_
          cases closed with
          | false => exact .waiting ⟨rfl, hready.2⟩
          | true =>
              have hclosing := Yields.closing box
                (r := ⟨⟨c, buf, (openAll box r.half.decrypt frames).1⟩, false, r.eof,
                  r.hasErrored⟩) ⟨rfl, hready.2⟩ heof
              rwa [BytesCodec.decodeAll_of_wait hend] at hclosing
  | cons chunk arrived ih =>
      have hend := BytesCodec.decode_decodeAll r.half.codec r.half.readBuf
      rw [framesOf_cons, List.nil_append, openAll_append]
      generalize hdecode : r.half.codec.decodeAll r.half.readBuf = result at hend
      obtain ⟨c, buf, frames, error⟩ := result
      refine .frames hready hdecode ?_
      cases error with
      | some error => exact .refused (BytesCodec.decode_error_append hend).2.2
      | none =>
          refine .exhausted hready heof hend ?_
          rw [if_pos rfl, ← framesOf_chunk]
          let rest : FramedRead := ⟨⟨c, buf, (openAll box r.half.decrypt frames).1⟩, false, r.eof,
            r.hasErrored⟩
          exact (ih (r := rest.readChunk chunk) ⟨rfl, hready.2⟩ rfl).of_poll_eq
            (poll_chunk (r := rest) ⟨rfl, hready.2⟩ chunk)

/-- A reader that reads the socket first returns what its buffer opens to with the first
chunk behind it. -/
theorem Yields.reading (hreading : r.isReadable = false ∧ r.hasErrored = false) (chunk : Bytes) :
    Yields box closed r (chunk :: arrived) (openAll box r.half.decrypt
      (framesOf r.half.codec r.half.readBuf (chunk :: arrived))).2 := by
  rw [← framesOf_chunk]
  exact (Yields.readable (r := r.readChunk chunk) ⟨rfl, hreading.2⟩ rfl).of_poll_eq
    (poll_chunk hreading chunk)

/-- After an error was returned the stream ends once. -/
theorem Yields.errored (herrored : r.hasErrored = true)
    (later : Yields box closed { r with isReadable := false, hasErrored := false } arrived msgs) :
    Yields box closed r arrived msgs :=
  .other (by rw [poll, if_pos herrored]) (fun _ => Next.noConfusion) later

/-! ## The two ways to cut the first chunk -/

/-- In the framed mode the buffer and the first chunk hold the same frames, whether they are
decoded one after the other or together. -/
theorem framesOf_join {c : BytesCodec} (hraw : c.raw = false) (buf chunk : Bytes)
    (chunks : List Bytes) :
    framesOf c [] (buf :: chunk :: chunks) = framesOf c buf (chunk :: chunks) := by
  rw [framesOf_cons c [], framesOf_cons c buf, List.nil_append, BytesCodec.decodeAll_append hraw]
  generalize c.decodeAll buf = result
  obtain ⟨c', buf', frames, _ | error⟩ := result
  · rw [if_pos rfl, framesOf_cons, List.append_assoc]
  · simp

/-- In the raw mode each chunk is a message. -/
theorem framesOf_raw {c : BytesCodec} (hraw : c.raw = true) {chunks : List Bytes}
    (hchunks : ∀ chunk ∈ chunks, chunk ≠ []) : framesOf c [] chunks = chunks := by
  induction chunks with
  | nil => rfl
  | cons chunk chunks ih =>
      have hdecode : c.decode chunk = (c, [], .ok (some chunk)) := by
        rw [BytesCodec.decode, if_pos hraw, if_neg]
        simpa using hchunks chunk List.mem_cons_self
      have hempty : c.decode [] = (c, [], .ok none) := by
        rw [BytesCodec.decode, if_pos hraw]
        rfl
      rw [framesOf_cons, List.nil_append, BytesCodec.decodeAll_of_frame hdecode,
        BytesCodec.decodeAll_of_wait hempty]
      simp only [if_true, List.singleton_append]
      rw [ih (fun chunk hchunk => hchunks chunk (List.mem_cons_of_mem _ hchunk))]

/-! ## What a poll leaves in the socket -/

theorem eof_decode (box : Secretbox) (r : FramedRead) : (r.decode box).1.eof = r.eof := by
  unfold decode
  split <;> rfl

/-- A poll leaves the last of the chunks, and marks the end only where it is reached. -/
theorem read_spec (h : r.eof = true → closed = true ∧ arrived = []) :
    (r.read box closed arrived).2.1 <:+ arrived ∧
      ((r.read box closed arrived).1.eof = true →
        closed = true ∧ (r.read box closed arrived).2.1 = []) := by
  induction arrived generalizing r with
  | nil =>
      rw [read]
      cases closed with
      | false => exact ⟨List.suffix_rfl, h⟩
      | true =>
          rw [if_pos rfl]
          split <;> exact ⟨List.suffix_rfl, fun _ => ⟨rfl, rfl⟩⟩
  | cons chunk arrived ih =>
      have heof := eof_decode box (r.readChunk chunk)
      rw [read]
      generalize (r.readChunk chunk).decode box = outcome at heof
      obtain ⟨r', _ | result⟩ := outcome
      · obtain ⟨hsuffix, hend⟩ := ih (r := r') (fun htrue =>
          absurd (heof.symm.trans htrue) Bool.false_ne_true)
        exact ⟨hsuffix.trans (List.suffix_cons _ _), hend⟩
      · exact ⟨List.suffix_cons _ _, fun htrue =>
          absurd (heof.symm.trans htrue) Bool.false_ne_true⟩

theorem poll_spec (box : Secretbox) (h : r.eof = true → closed = true ∧ arrived = []) :
    (r.poll box closed arrived).2.1 <:+ arrived ∧
      ((r.poll box closed arrived).1.eof = true →
        closed = true ∧ (r.poll box closed arrived).2.1 = []) := by
  unfold poll
  split
  · exact ⟨List.suffix_rfl, h⟩
  · split
    · have heof := eof_decode box r
      generalize r.decode box = outcome at heof
      obtain ⟨r', _ | result⟩ := outcome
      · exact read_spec (fun htrue => h (heof.symm.trans htrue))
      · exact ⟨List.suffix_rfl, fun htrue => h (heof.symm.trans htrue)⟩
    · exact read_spec h

end FramedRead

end HbbCommon.Tcp
