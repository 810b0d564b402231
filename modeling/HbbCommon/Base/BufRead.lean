import HbbCommon.Base.ByteFields

/-!
# Buffered streams

A buffered stream reads its source in chunks and hands the bytes out one line after the
other. How the source cuts the bytes into chunks makes no difference: `read_until` takes
the bytes up to the first delimiter, and what it leaves is what stands behind them. A read
of no bytes is the end of the stream.
-/

namespace HbbCommon.Base

/-- The value of a call, or nothing yet: it waits for bytes. -/
inductive Poll (α : Type)
  | pending
  | ready (a : α)
  deriving DecidableEq, Repr

/-- What one read of the source returns. -/
inductive ReadResult
  | bytes (chunk : List UInt8)
  | failed
  deriving DecidableEq, Repr

def ReadResult.data : ReadResult → List UInt8
  | .bytes chunk => chunk
  | .failed => []

structure BufStream where
  /-- read, and not yet taken -/
  buffer : List UInt8
  /-- what the next reads return -/
  reads : List ReadResult
  /-- whether the end of the stream is behind them -/
  closed : Bool
  deriving DecidableEq, Repr

/-- A list up to its first `d`, and what is behind it. -/
def cutAfter (d : UInt8) : List UInt8 → Option (List UInt8 × List UInt8)
  | [] => none
  | b :: bytes =>
      if b = d then some ([b], bytes)
      else (cutAfter d bytes).map (fun parts => (b :: parts.1, parts.2))

theorem cutAfter_append {d : UInt8} {a : List UInt8} (ha : d ∉ a) (rest : List UInt8) :
    cutAfter d (a ++ d :: rest) = some (a ++ [d], rest) := by
  induction a with
  | nil => exact if_pos rfl
  | cons b a ih =>
      obtain ⟨hb, ha⟩ := not_or.mp (List.mem_cons.not.mp ha)
      rw [List.cons_append, cutAfter, if_neg (Ne.symm hb), ih ha]
      rfl

theorem cutAfter_of_notMem {d : UInt8} {bytes : List UInt8} (h : d ∉ bytes) :
    cutAfter d bytes = none := by
  induction bytes with
  | nil => rfl
  | cons b bytes ih =>
      obtain ⟨hb, h⟩ := not_or.mp (List.mem_cons.not.mp h)
      rw [cutAfter, if_neg (Ne.symm hb), ih h]
      rfl

/-- What is cut off and what is left make the whole list. -/
theorem append_of_cutAfter {d : UInt8} {bytes line rest : List UInt8}
    (h : cutAfter d bytes = some (line, rest)) : line ++ rest = bytes := by
  induction bytes generalizing line with
  | nil => cases h
  | cons b bytes ih =>
      rw [cutAfter] at h
      split at h
      · cases h
        rfl
      · obtain ⟨parts, hparts, heq⟩ := Option.map_eq_some_iff.mp h
        cases heq
        rw [List.cons_append, ih hparts]

/-- What has no `d` in front of the first one is in front of it. -/
theorem exists_append_of_notMem {d : UInt8} {front tail a rest : List UInt8} (h : d ∉ front)
    (heq : front ++ tail = a ++ d :: rest) : ∃ a', a = front ++ a' ∧ tail = a' ++ d :: rest := by
  rcases List.append_eq_append_iff.mp heq with ⟨a', ha, htail⟩ | ⟨c, rfl, hc⟩
  · exact ⟨a', ha, htail⟩
  · cases c with
    | nil => exact ⟨[], by simp, by simpa using hc.symm⟩
    | cons c cs =>
        cases hc
        simp at h

namespace BufStream

/-- `read_until` of a buffer and the reads behind it; no bytes at all when a read fails. -/
def readUntilFrom (d : UInt8) (closed : Bool) (buffer : List UInt8) (reads : List ReadResult) :
    Poll (Option (List UInt8) × BufStream) :=
  match cutAfter d buffer with
  | some (line, rest) => .ready (some line, ⟨rest, reads, closed⟩)
  | none =>
      match reads with
      | [] => if closed then .ready (some buffer, ⟨[], [], closed⟩) else .pending
      | .failed :: reads => .ready (none, ⟨[], reads, closed⟩)
      | .bytes [] :: reads => .ready (some buffer, ⟨[], reads, closed⟩)
      | .bytes (b :: chunk) :: reads =>
          match readUntilFrom d closed (b :: chunk) reads with
          | .pending => .pending
          | .ready (line, s) => .ready (line.map (buffer ++ ·), s)

def readUntil (s : BufStream) (d : UInt8) : Poll (Option (List UInt8) × BufStream) :=
  readUntilFrom d s.closed s.buffer s.reads

/-- What is still to be read. -/
def unread (s : BufStream) : List UInt8 := s.buffer ++ s.reads.flatMap ReadResult.data

/-- Every read returns bytes. -/
def Flows (s : BufStream) : Prop := ∀ r ∈ s.reads, ∃ b chunk, r = .bytes (b :: chunk)

theorem unread_mk (buffer : List UInt8) (reads : List ReadResult) (closed : Bool) :
    (⟨buffer, reads, closed⟩ : BufStream).unread = buffer ++ reads.flatMap ReadResult.data := rfl

section

variable {d : UInt8} {closed : Bool} {buffer line rest : List UInt8} {reads : List ReadResult}

theorem readUntilFrom_of_cut (h : cutAfter d buffer = some (line, rest)) :
    readUntilFrom d closed buffer reads = .ready (some line, ⟨rest, reads, closed⟩) := by
  unfold readUntilFrom
  rw [h]

theorem readUntilFrom_nil (h : cutAfter d buffer = none) : readUntilFrom d closed buffer [] =
    if closed then .ready (some buffer, ⟨[], [], closed⟩) else .pending := by
  unfold readUntilFrom
  rw [h]

theorem readUntilFrom_failed (h : cutAfter d buffer = none) :
    readUntilFrom d closed buffer (.failed :: reads) = .ready (none, ⟨[], reads, closed⟩) := by
  unfold readUntilFrom
  rw [h]

theorem readUntilFrom_eof (h : cutAfter d buffer = none) :
    readUntilFrom d closed buffer (.bytes [] :: reads) =
      .ready (some buffer, ⟨[], reads, closed⟩) := by
  unfold readUntilFrom
  rw [h]

theorem readUntilFrom_bytes (h : cutAfter d buffer = none) (b : UInt8) (chunk : List UInt8) :
    readUntilFrom d closed buffer (.bytes (b :: chunk) :: reads) =
      match readUntilFrom d closed (b :: chunk) reads with
      | .pending => .pending
      | .ready (line, s) => .ready (line.map (buffer ++ ·), s) := by
  rw [readUntilFrom.eq_def, h]

end

/-- What a call takes and what it leaves is what there was, and a closed source stays closed. -/
theorem readUntilFrom_conserves {d : UInt8} {closed : Bool} {buffer : List UInt8}
    {reads : List ReadResult} {line : List UInt8} {s : BufStream}
    (h : readUntilFrom d closed buffer reads = .ready (some line, s)) :
    line ++ s.unread = buffer ++ reads.flatMap ReadResult.data ∧ s.closed = closed := by
  have hfront : ∀ {buffer line rest : List UInt8} {reads : List ReadResult},
      cutAfter d buffer = some (line, rest) →
      line ++ (⟨rest, reads, closed⟩ : BufStream).unread =
        buffer ++ reads.flatMap ReadResult.data := by
    intro buffer line rest reads hcut
    rw [unread_mk, ← List.append_assoc, append_of_cutAfter hcut]
  induction reads generalizing buffer line with
  | nil =>
      cases hcut : cutAfter d buffer with
      | some parts =>
          rw [readUntilFrom_of_cut hcut] at h
          cases h
          exact ⟨hfront hcut, rfl⟩
      | none =>
          rw [readUntilFrom_nil hcut] at h
          split at h <;> cases h
          exact ⟨rfl, rfl⟩
  | cons r reads ih =>
      cases hcut : cutAfter d buffer with
      | some parts =>
          rw [readUntilFrom_of_cut hcut] at h
          cases h
          exact ⟨hfront hcut, rfl⟩
      | none =>
          match r with
          | .failed =>
              rw [readUntilFrom_failed hcut] at h
              cases h
          | .bytes [] =>
              rw [readUntilFrom_eof hcut] at h
              cases h
              exact ⟨rfl, rfl⟩
          | .bytes (b :: chunk) =>
              rw [readUntilFrom_bytes hcut] at h
              split at h
              · cases h
              · rename_i tail t htail
                obtain ⟨hline, rfl⟩ := Prod.mk.inj (Poll.ready.inj h)
                obtain ⟨tail, rfl, rfl⟩ := Option.map_eq_some_iff.mp hline
                obtain ⟨hrest, hclosed⟩ := ih htail
                rw [List.append_assoc, hrest]
                exact ⟨rfl, hclosed⟩

/-- However the bytes are cut into reads, a call takes those up to the first delimiter. -/
theorem readUntilFrom_line {d : UInt8} {closed : Bool} {buffer : List UInt8}
    {reads : List ReadResult} {a rest : List UInt8} (ha : d ∉ a)
    (hunread : buffer ++ reads.flatMap ReadResult.data = a ++ d :: rest)
    (hflows : ∀ r ∈ reads, ∃ b chunk, r = .bytes (b :: chunk)) :
    ∃ s, readUntilFrom d closed buffer reads = .ready (some (a ++ [d]), s) ∧
      s.unread = rest ∧ s.closed = closed ∧ s.reads <:+ reads := by
  induction reads generalizing buffer a with
  | nil =>
      rw [List.flatMap_nil, List.append_nil] at hunread
      subst hunread
      exact ⟨⟨rest, [], closed⟩, readUntilFrom_of_cut (cutAfter_append ha rest),
        List.append_nil rest, rfl, List.suffix_rfl⟩
  | cons r reads ih =>
      obtain ⟨b, chunk, rfl⟩ := hflows r List.mem_cons_self
      by_cases hd : d ∈ buffer
      · -- the line ends in the buffer
        obtain ⟨a', rest', rfl, ha'⟩ := List.eq_append_cons_of_mem hd
        have hcut := congrArg (cutAfter d) hunread
        rw [List.append_assoc, List.cons_append, cutAfter_append ha', cutAfter_append ha] at hcut
        obtain ⟨hline, hrest⟩ := Prod.mk.inj (Option.some.inj hcut)
        refine ⟨⟨rest', _, closed⟩, ?_, hrest, rfl, List.suffix_rfl⟩
        rw [← hline]
        exact readUntilFrom_of_cut (cutAfter_append ha' rest')
      · -- the buffer is the front of the line
        obtain ⟨tail, rfl, htail⟩ := exists_append_of_notMem hd hunread
        obtain ⟨s, hread, hleft, hclosed, hreads⟩ :
            ∃ s, readUntilFrom d closed (b :: chunk) reads = .ready (some (tail ++ [d]), s) ∧
              s.unread = rest ∧ s.closed = closed ∧ s.reads <:+ reads :=
          ih (fun h => ha (List.mem_append_right buffer h)) htail
            (fun r hr => hflows r (List.mem_cons_of_mem _ hr))
        refine ⟨s, ?_, hleft, hclosed, hreads.trans (List.suffix_cons _ _)⟩
        rw [readUntilFrom_bytes (cutAfter_of_notMem hd), hread, List.append_assoc]
        rfl

/-- At a closed source no call waits. -/
theorem readUntilFrom_ne_pending (d : UInt8) (buffer : List UInt8) (reads : List ReadResult) :
    readUntilFrom d true buffer reads ≠ .pending := by
  induction reads generalizing buffer with
  | nil =>
      unfold readUntilFrom
      split <;> simp
  | cons r reads ih =>
      unfold readUntilFrom
      split
      · simp
      · split
        · simp
        · simp
        · simp
        · rename_i b chunk rest heq
          cases heq
          split
          · rename_i hpending
            exact absurd hpending (ih _)
          · simp

end BufStream

/-! ## Lines of text -/

theorem utf8Bytes_injective : Function.Injective utf8Bytes := fun _ _ h =>
  Option.some.inj ((fromUtf8_eq_some_iff.mpr rfl).symm.trans (fromUtf8_eq_some_iff.mpr h))

/-- A text is cut in front of a byte that begins a character. -/
theorem exists_append_of_utf8Bytes {text : String} {a rest : List UInt8} {b : UInt8}
    (h : utf8Bytes text = a ++ b :: rest) (hb : b.IsUTF8FirstByte) :
    ∃ front back, text = front ++ back ∧ utf8Bytes front = a ∧ utf8Bytes back = b :: rest := by
  have hlength : text.utf8ByteSize = a.length + (rest.length + 1) := by
    rw [← length_utf8Bytes, h, List.length_append, List.length_cons]
  have hlt : String.Pos.Raw.mk a.length < text.rawEndPos := by
    show a.length < text.utf8ByteSize
    omega
  have hbyte : text.getUTF8Byte ⟨a.length⟩ hlt = b := by
    have hget : (utf8Bytes text)[a.length]? = some b := by
      rw [h, List.getElem?_append_right (Nat.le_refl _), Nat.sub_self, List.getElem?_cons_zero]
    obtain ⟨_, hb⟩ := List.getElem?_eq_some_iff.mp hget
    exact hb
  have hvalid : (String.Pos.Raw.mk a.length).IsValid text :=
    String.Pos.Raw.isValid_iff_isUTF8FirstByte.mpr (.inr ⟨hlt, hbyte.symm ▸ hb⟩)
  obtain ⟨front, back, rfl, hpos⟩ := String.Pos.Raw.isValid_iff_exists_append.mp hvalid
  have hfront : (utf8Bytes front).length = a.length := (congrArg (·.byteIdx) hpos).symm
  rw [utf8Bytes_append] at h
  obtain ⟨hfront, hback⟩ := List.append_inj h hfront
  exact ⟨front, back, rfl, hfront, hback⟩

/-- Why a line was not read. -/
inductive LineError
  | failed
  | invalidUtf8
  deriving DecidableEq, Repr

namespace BufStream

/-- `read_line`: the bytes up to the next newline behind the text, and how many they are. -/
def readLine (s : BufStream) (text : String) :
    Poll (Except LineError (Nat × String) × BufStream) :=
  match s.readUntil 10 with
  | .pending => .pending
  | .ready (none, s) => .ready (.error .failed, s)
  | .ready (some line, s) =>
      match fromUtf8 (utf8Bytes text ++ line) with
      | some text => .ready (.ok (line.length, text), s)
      | none => .ready (.error .invalidUtf8, s)

/-- What is read goes from the stream to the end of the text. -/
theorem readLine_conserves {s t : BufStream} {text text' : String} {n : Nat}
    (h : s.readLine text = .ready (.ok (n, text'), t)) :
    utf8Bytes text' ++ t.unread = utf8Bytes text ++ s.unread ∧
      n + t.unread.length = s.unread.length ∧ t.closed = s.closed := by
  unfold readLine at h
  split at h
  · cases h
  · cases h
  · rename_i line t' hline
    obtain ⟨hconserves, hclosed⟩ : line ++ t'.unread = s.unread ∧ t'.closed = s.closed :=
      readUntilFrom_conserves hline
    split at h
    · rename_i text'' hutf8
      cases h
      rw [← fromUtf8_eq_some_iff.mp hutf8, List.append_assoc, hconserves, ← hconserves,
        List.length_append]
      exact ⟨rfl, rfl, hclosed⟩
    · cases h

/-- A line that is not empty leaves less to be read. -/
theorem unread_lt_of_readLine {s t : BufStream} {text text' : String} {n : Nat}
    (h : s.readLine text = .ready (.ok (n, text'), t)) (hn : n ≠ 0) :
    t.unread.length < s.unread.length := by
  have := (readLine_conserves h).2.1
  omega

theorem readLine_ne_pending {s : BufStream} (h : s.closed = true) (text : String) :
    s.readLine text ≠ .pending := by
  have hread : s.readUntil 10 ≠ .pending := by
    unfold readUntil
    rw [h]
    exact readUntilFrom_ne_pending 10 s.buffer s.reads
  unfold readLine
  split
  · rename_i hpending
    exact absurd hpending hread
  · simp
  · split <;> simp

/-- The line in front, when the text with it is `text'`. -/
theorem readLine_line {s : BufStream} {text text' : String} {a rest : List UInt8}
    (ha : 10 ∉ a) (hunread : s.unread = a ++ 10 :: rest) (hflows : s.Flows)
    (htext : utf8Bytes text' = utf8Bytes text ++ (a ++ [10])) :
    ∃ t, s.readLine text = .ready (.ok ((a ++ [10]).length, text'), t) ∧
      t.unread = rest ∧ t.closed = s.closed ∧ t.reads <:+ s.reads := by
  obtain ⟨t, hread, hrest⟩ : ∃ t, s.readUntil 10 = .ready (some (a ++ [10]), t) ∧
      t.unread = rest ∧ t.closed = s.closed ∧ t.reads <:+ s.reads :=
    readUntilFrom_line ha hunread hflows
  refine ⟨t, ?_, hrest⟩
  unfold readLine
  rw [hread]
  simp only [← htext, fromUtf8_eq_some_iff.mpr rfl]

end BufStream

end HbbCommon.Base
