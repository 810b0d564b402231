import HbbCommon.Tcp.Channel

/-!
# Send calls that time out

The writer's end of a connection when its `send_bytes` calls may be abandoned. A call that
is abandoned is dropped where it waits, with its local buffers: the rest of a long frame,
the rest of a frame of the split writer, or the bytes that were pending at the split. The
write buffer of the framed stream is not local, and stays.
-/

namespace HbbCommon.Tcp

open HbbCommon.Base
open HbbCommon.Transport (Bytes)

namespace Endpoint

/-- The start of `send_bytes`. -/
def sendBytes (bytes : Bytes) : Endpoint → Endpoint × Sending
  | .joined stream =>
      match stream.sendBytes bytes with
      | (stream, .ok sending) => (.joined stream, sending)
      | (stream, .error _) => (.joined stream, .idle)
  | .split read write =>
      let (write, sending) := write.sendBytes bytes
      (.split read write, sending)

end Endpoint

namespace Side

def sendBytes (s : Side) (bytes : Bytes) : Option Side :=
  match s.sending with
  | .idle =>
      let (endpoint, sending) := s.endpoint.sendBytes bytes
      some { s with endpoint := endpoint, sending := sending, sent := s.sent ++ [bytes] }
  | _ => none

/-- The timeout of the call: what it had still to do is dropped. -/
def abandon (s : Side) : Side := { s with sending := .idle }

end Side

inductive WriterAction
  | sendBytes (bytes : Bytes)
  /-- a call that is abandoned while it waits for room in the write buffer -/
  | sendNothing (bytes : Bytes)
  | write (n : Nat)
  | resume
  | abandon
  | intoSplit
  deriving DecidableEq, Repr

structure Writer where
  side : Side
  /-- the bytes on the socket, oldest first -/
  written : Bytes
  deriving DecidableEq

namespace Writer

def new : Writer :=
  { side :=
      { endpoint := .joined .new, sending := .idle, closed := false, sent := [], sealedWith := []
        received := [], outcome := none }
    written := [] }

/-- The payloads passed to `send_bytes`, in call order. -/
def called (s : Writer) : List Bytes := s.side.sent

def step (s : Writer) : WriterAction → Option Writer
  | .sendBytes bytes => (s.side.sendBytes bytes).map (fun side => { s with side := side })
  | .sendNothing bytes =>
      match s.side.sending with
      | .idle => some { s with side := { s.side with sent := s.side.sent ++ [bytes] } }
      | _ => none
  | .write n =>
      (s.side.write n).map (fun (side, bytes) =>
        { side := side, written := s.written ++ bytes })
  | .resume => s.side.resume.map (fun side => { s with side := side })
  | .abandon => some { s with side := s.side.abandon }
  | .intoSplit => s.side.intoSplit.map (fun side => { s with side := side })

def system : TSys Writer WriterAction where
  init := .new
  step := step

end Writer

end HbbCommon.Tcp
