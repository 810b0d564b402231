import HbbCommon.Base.BufRead

/-!
# The response of a proxy

A proxy answers a `CONNECT` request with a header and makes the stream a tunnel. The header
is read line by line until it ends in an empty line; what stands behind it belongs to the
tunnel, although the same read may have brought both. The parser of headers is a parameter.
-/

namespace HbbCommon.Net

open HbbCommon.Base

/-- The errors of `ProxyError` that a response gives. -/
inductive ResponseError
  | ioError (error : LineError)
  | endOfFile
  | maximumResponseHeaderLengthExceeded (len : Nat)
  | httpParseError
  | noHttpCode
  | httpCode200 (code : UInt16)
  deriving DecidableEq, Repr

/-- `MAXIMUM_RESPONSE_HEADER_LENGTH` -/
def maximumResponseHeaderLength : Nat := 4096

/-- `"\r\n\r\n"` -/
def emptyLine : List UInt8 := [13, 10, 13, 10]

/-- The loop of `get_response`, with the lines read so far. -/
def getResponseFrom (s : BufStream) (response : String) :
    Poll (Except ResponseError String × BufStream) :=
  match _h : s.readLine response with
  | .pending => .pending
  | .ready (.error error, t) => .ready (.error (.ioError error), t)
  | .ready (.ok (n, response), t) =>
      if _hn : n = 0 then .ready (.error .endOfFile, t)
      else if maximumResponseHeaderLength < response.utf8ByteSize then
        .ready (.error (.maximumResponseHeaderLengthExceeded response.utf8ByteSize), t)
      else if emptyLine <:+ utf8Bytes response then .ready (.ok response, t)
      else getResponseFrom t response
termination_by s.unread.length
decreasing_by exact BufStream.unread_lt_of_readLine _h _hn

def getResponse (s : BufStream) : Poll (Except ResponseError String × BufStream) :=
  getResponseFrom s ""

/-- `recv_and_check_response`; `parse` gives the status code of a header. -/
def recvAndCheckResponse (parse : List UInt8 → Option (Option UInt16)) (s : BufStream) :
    Poll (Except ResponseError Unit × BufStream) :=
  match getResponse s with
  | .pending => .pending
  | .ready (.error error, t) => .ready (.error error, t)
  | .ready (.ok response, t) =>
      match parse (utf8Bytes response) with
      | none => .ready (.error .httpParseError, t)
      | some none => .ready (.error .noHttpCode, t)
      | some (some code) =>
          if code = 200 then .ready (.ok (), t) else .ready (.error (.httpCode200 code), t)

/-! ## Where the header ends -/

/-- A header that the client accepts: its first empty line is its end. -/
structure IsHeader (h : String) : Prop where
  length_le : h.utf8ByteSize ≤ maximumResponseHeaderLength
  ends : emptyLine <:+ utf8Bytes h
  first : ∀ before behind, utf8Bytes h = before ++ emptyLine ++ behind → behind = []

section

variable {s t : BufStream} {response text : String} {n : Nat}

/-- A line that keeps the response within the limit ends the header or is followed by more. -/
theorem getResponseFrom_of_line (h : s.readLine response = .ready (.ok (n, text), t))
    (hn : n ≠ 0) (hlength : text.utf8ByteSize ≤ maximumResponseHeaderLength) :
    getResponseFrom s response =
      if emptyLine <:+ utf8Bytes text then .ready (.ok text, t) else getResponseFrom t text := by
  rw [getResponseFrom]
  split
  · rename_i hread
    rw [h] at hread
    cases hread
  · rename_i hread
    rw [h] at hread
    cases hread
  · rename_i hread
    rw [h] at hread
    cases hread
    rw [dif_neg hn, if_neg (Nat.not_lt.mpr hlength)]

/-- No byte is lost: the header and what is left are all that was to be read. -/
theorem getResponseFrom_conserves {h : String}
    (hget : getResponseFrom s response = .ready (.ok h, t)) :
    utf8Bytes h ++ t.unread = utf8Bytes response ++ s.unread ∧ emptyLine <:+ utf8Bytes h := by
  fun_induction getResponseFrom s response with
  | case1 => cases hget
  | case2 => cases hget
  | case3 => cases hget
  | case4 => cases hget
  | case5 s response n text t' hread hn hlength hends =>
      cases hget
      exact ⟨(BufStream.readLine_conserves hread).1, hends⟩
  | case6 s response n text t' hread hn hlength hends ih =>
      obtain ⟨hunread, hends⟩ := ih hget
      exact ⟨hunread.trans (BufStream.readLine_conserves hread).1, hends⟩

theorem getResponseFrom_ne_pending (hclosed : s.closed = true) :
    getResponseFrom s response ≠ .pending := by
  fun_induction getResponseFrom s response with
  | case1 s response hread => exact absurd hread (BufStream.readLine_ne_pending hclosed _)
  | case2 => simp
  | case3 => simp
  | case4 => simp
  | case5 => simp
  | case6 s response n text t' hread hn hlength hends ih =>
      exact ih ((BufStream.readLine_conserves hread).2.2.trans hclosed)

end

/-- What is behind the front of a header ends in a newline. -/
theorem IsHeader.newline_mem {h : String} (hheader : IsHeader h) {front rest : List UInt8}
    (hrest : utf8Bytes h = front ++ rest) (hne : rest ≠ []) : 10 ∈ rest := by
  obtain ⟨before, hbefore⟩ := hheader.ends
  have hlast : (utf8Bytes h).getLast? = some 10 := by
    rw [← hbefore, List.getLast?_append_of_ne_nil _ (by decide)]
    rfl
  rw [hrest, List.getLast?_append_of_ne_nil _ hne] at hlast
  exact List.mem_of_getLast? hlast

/-- Only the whole header ends in an empty line. -/
theorem IsHeader.not_suffix {h : String} (hheader : IsHeader h) {front rest : List UInt8}
    (hrest : utf8Bytes h = front ++ rest) (hne : rest ≠ []) : ¬ emptyLine <:+ front := by
  rintro ⟨before, rfl⟩
  exact hne (hheader.first before rest hrest)

/-- With the front of a header read, the rest of it is read and nothing more. -/
theorem getResponseFrom_header {h : String} (hheader : IsHeader h) {tunnel : List UInt8}
    (rest : List UInt8) (s : BufStream) (response : String)
    (hrest : utf8Bytes h = utf8Bytes response ++ rest) (hne : rest ≠ [])
    (hunread : s.unread = rest ++ tunnel) (hflows : s.Flows) :
    ∃ t, getResponseFrom s response = .ready (.ok h, t) ∧ t.unread = tunnel ∧ t.Flows ∧
      t.closed = s.closed := by
  induction hlen : rest.length using Nat.strong_induction_on generalizing rest s response with
  | _ len ih =>
  obtain ⟨a, rest', rfl, ha⟩ := List.eq_append_cons_of_mem (hheader.newline_mem hrest hne)
  -- the newline ends a character, so the lines up to it are a text
  have hcut : utf8Bytes h = (utf8Bytes response ++ a) ++ 10 :: rest' := by
    rw [hrest, List.append_assoc]
  obtain ⟨front, back, hsplit, hfront, hback⟩ := exists_append_of_utf8Bytes hcut (by decide)
  have htext : utf8Bytes (front ++ "\n") = utf8Bytes response ++ (a ++ [10]) := by
    rw [utf8Bytes_append, hfront, List.append_assoc]
    rfl
  obtain ⟨t, hread, htunnel, hclosed, hreads⟩ := BufStream.readLine_line (s := s) ha
    (hunread.trans (List.append_assoc a (10 :: rest') tunnel)) hflows htext
  have htflows : t.Flows := fun r hr => hflows r (hreads.mem hr)
  have hwhole : utf8Bytes h = utf8Bytes (front ++ "\n") ++ rest' := by
    rw [htext, hrest]
    simp
  have hlength : (front ++ "\n").utf8ByteSize ≤ maximumResponseHeaderLength := by
    have hle := hheader.length_le
    rw [← length_utf8Bytes, hwhole, List.length_append] at hle
    exact (Nat.le_add_right _ _).trans hle
  rw [getResponseFrom_of_line hread (by simp) hlength]
  by_cases hdone : rest' = []
  · -- the last line of the header
    subst hdone
    rw [List.append_nil] at hwhole
    have heq : h = front ++ "\n" := utf8Bytes_injective hwhole
    rw [← heq, if_pos hheader.ends]
    exact ⟨t, rfl, htunnel, htflows, hclosed⟩
  · rw [if_neg (hheader.not_suffix hwhole hdone)]
    have hshorter : rest'.length < len := by
      rw [← hlen, List.length_append, List.length_cons]
      omega
    obtain ⟨u, hget, hleft, huflows, huclosed⟩ :=
      ih rest'.length hshorter rest' t (front ++ "\n") hwhole hdone htunnel htflows rfl
    exact ⟨u, hget, hleft, huflows, huclosed.trans hclosed⟩

/-- However the bytes are cut into reads, the header is returned and the tunnel is left; and
where the stream ends before an empty line there is an error. -/
theorem getResponse_boundary (s : BufStream) :
    (∀ h tunnel, IsHeader h → s.unread = utf8Bytes h ++ tunnel → s.Flows →
      ∃ t, getResponse s = .ready (.ok h, t) ∧ t.unread = tunnel ∧ t.Flows ∧
        t.closed = s.closed) ∧
    (s.closed = true → ¬ emptyLine <:+: s.unread →
      ∃ error t, getResponse s = .ready (.error error, t)) := by
  constructor
  · intro h tunnel hheader hunread hflows
    have hne : utf8Bytes h ≠ [] := by
      intro hnil
      have := hheader.ends.length_le
      rw [hnil] at this
      exact absurd this (by decide)
    exact getResponseFrom_header hheader _ s "" rfl hne hunread hflows
  · intro hclosed hinfix
    cases hget : getResponse s with
    | pending => exact absurd hget (getResponseFrom_ne_pending hclosed)
    | ready outcome =>
        obtain ⟨error | h, t⟩ := outcome
        · exact ⟨error, t, rfl⟩
        · obtain ⟨hunread, hends⟩ := getResponseFrom_conserves hget
          refine absurd ?_ hinfix
          rw [show s.unread = utf8Bytes h ++ t.unread from hunread.symm]
          exact hends.isInfix.trans (List.prefix_append _ _).isInfix

/-- A tunnel begins behind a header with the status code 200. -/
theorem recvAndCheckResponse_ok {parse : List UInt8 → Option (Option UInt16)} {s t : BufStream}
    (hcheck : recvAndCheckResponse parse s = .ready (.ok (), t)) :
    ∃ h, utf8Bytes h ++ t.unread = s.unread ∧ emptyLine <:+ utf8Bytes h ∧
      parse (utf8Bytes h) = some (some 200) := by
  unfold recvAndCheckResponse at hcheck
  split at hcheck
  · cases hcheck
  · cases hcheck
  · rename_i h t' hget
    obtain ⟨hunread, hends⟩ := getResponseFrom_conserves hget
    split at hcheck
    · cases hcheck
    · cases hcheck
    · rename_i code hparse
      split at hcheck
      · rename_i hcode
        subst hcode
        cases hcheck
        exact ⟨h, hunread, hends, hparse⟩
      · cases hcheck

/-- A header and the tunnel behind it, cut in the middle of the empty line and of the tunnel. -/
def sampleStream : BufStream where
  buffer := []
  reads := [.bytes (utf8Bytes "HTTP/1.1 200 OK\r\n\r"), .bytes [10, 13, 10, 13],
    .bytes [10, 7]]
  closed := false

theorem getResponse_boundary_sample :
    utf8Bytes "HTTP/1.1 200 OK\r\n\r\n" ++ [13, 10, 13, 10, 7] = sampleStream.unread ∧
      ∃ t, getResponse sampleStream = .ready (.ok "HTTP/1.1 200 OK\r\n\r\n", t) ∧
        t.unread = [13, 10, 13, 10, 7] := by
  have hunread : sampleStream.unread =
      utf8Bytes "HTTP/1.1 200 OK\r\n\r\n" ++ [13, 10, 13, 10, 7] := by decide +kernel
  have hheader : IsHeader "HTTP/1.1 200 OK\r\n\r\n" := by
    refine ⟨by decide +kernel, by decide +kernel, ?_⟩
    intro before behind h
    have honly : ∀ k ≤ 19, emptyLine <+: (utf8Bytes "HTTP/1.1 200 OK\r\n\r\n").drop k →
        k = 15 := by decide +kernel
    have hlength : 19 = before.length + 4 + behind.length := by
      have := congrArg List.length h
      rw [List.length_append, List.length_append] at this
      exact this
    have hat : before.length = 15 := by
      refine honly before.length (by omega) ?_
      rw [h, List.append_assoc, List.drop_left]
      exact List.prefix_append _ _
    exact List.eq_nil_of_length_eq_zero (by omega)
  have hflows : sampleStream.Flows := by
    intro r hr
    rcases List.mem_cons.mp hr with rfl | hr
    · exact ⟨72, utf8Bytes "TTP/1.1 200 OK\r\n\r", by decide +kernel⟩
    · rcases List.mem_cons.mp hr with rfl | hr
      · exact ⟨10, [13, 10, 13], rfl⟩
      · rw [List.mem_singleton.mp hr]
        exact ⟨10, [7], rfl⟩
  obtain ⟨t, hget, hleft, -⟩ :=
    (getResponse_boundary sampleStream).1 _ _ hheader hunread hflows
  exact ⟨hunread.symm, t, hget, hleft⟩

end HbbCommon.Net
