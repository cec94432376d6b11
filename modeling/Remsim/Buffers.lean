import Remsim.Errno
import Remsim.RsproClient

/-! # Message buffers and PDUs (`rspro_util.c`, `rspro_client_fsm.c`, `rspro_server.c`)

Who frees what.  A read callback is given a message buffer and may decode a PDU from it; a send
function is given a PDU and allocates a message buffer for it.  The functions return what they
return in C together with a record of what they do to the objects they own; `none` is a failed
`OSMO_ASSERT()`.  The helpers of the IPA libraries, the decoder, the encoder and the handlers are
the fields of `Env`; none of them frees the message, and none but `rspro_enc_msg()` the PDU. -/

namespace Remsim

namespace Buffers

/-- `enum ipaccess_proto`, as far as the callbacks tell its values apart. -/
inductive IpaProto where
  | ipaccess
  | osmo
  | other
deriving DecidableEq, Repr

/-- `enum ipaccess_proto_ext`, likewise. -/
inductive IpaProtoExt where
  | rspro
  | other
deriving DecidableEq, Repr

/-- A received message: what its control block says, and the octets from `l2h` on. -/
structure Msgb where
  proto : IpaProto
  protoExt : IpaProtoExt
  l2 : List UInt8

/-- The `IPAC_MSGT_*` constants. -/
structure IpacMsgt where
  ping : UInt8
  pong : UInt8
  idGet : UInt8
  idResp : UInt8
  idAck : UInt8

/-- The objects that are freed: the message received, the PDU, and the message to be sent. -/
inductive Obj where
  | msg
  | pdu
  | msgTx
deriving DecidableEq, Repr

/-- What a function does besides returning. -/
inductive Effect where
  /-- `msgb_free()` or `ASN_STRUCT_FREE()`. -/
  | free (o : Obj)
  /-- `rspro_dec_msg()` has returned a PDU. -/
  | decoded
  /-- The handler for PDUs has been called. -/
  | handled (pdu : RsproPDU)
  /-- A message has been queued; the stream frees it. -/
  | queued
  /-- `osmo_ipa_ka_fsm_pong_received()`. -/
  | pongReceived
  /-- `osmo_stream_cli_close()` or `osmo_stream_srv_destroy()`. -/
  | close
deriving DecidableEq, Repr

/-- The results of the functions called. -/
structure Env where
  msgt : IpacMsgt
  /-- `osmo_stream_cli_get_fd()`. -/
  fd : ℤ
  ipaCcmRcvmsgBtsBase : List UInt8 → ℤ
  /-- `ipa_ccm_make_id_resp_from_req()` returns a message. -/
  ipaCcmMakeIdRespFromReq : List UInt8 → Bool
  /-- `ipa_msg_alloc()` returns a message. -/
  ipaMsgAlloc : Bool
  ipaCcmSendPong : ℤ
  ipaCcmSendIdAck : ℤ
  ipaCcmIdRespParse : List UInt8 → ℤ
  /-- The length of the unit identity, if the parsed message has one. -/
  tlvpLenUnit : List UInt8 → Option ℕ
  /-- `ber_decode()` with `RC_OK`.  What it leaves behind when it fails is no decoded PDU; nobody
  frees it. -/
  berDecode : List UInt8 → Option RsproPDU
  handleRx : RsproPDU → ℤ
  /-- `msgb_alloc_headroom()` returns a message. -/
  msgbAlloc : Bool
  derEncode : RsproPDU → Option (List UInt8)

/-- A return code and the record of the call. -/
abbrev Ret := ℤ × List Effect

namespace Env

variable (E : Env)

/-! ### Reading -/

/-- `rspro_dec_msg()`. -/
def rsproDecMsg (msg : Msgb) : Option RsproPDU := E.berDecode msg.l2

/-- `_ipaccess_bts_handle_ccm()`. -/
def ipaccessBtsHandleCcm (msg : Msgb) : Option Ret :=
  if msg.proto ≠ .ipaccess then some (0, [])
  else match msg.l2 with
    | [] => none
    | msgType :: rest =>
        if E.fd < 0 then none
        else if E.ipaCcmRcvmsgBtsBase msg.l2 < 0 then some (-1, [])
        else if msgType = E.msgt.idGet then
          if !E.ipaCcmMakeIdRespFromReq rest then some (-1, [])
          else if !E.ipaMsgAlloc then some (-1, [.queued])
          else some (1, [.queued, .queued])
        else some (1, [])

/-- The shared exit of both callbacks. -/
def leave (rc : ℤ) (es : List Effect) : Ret := (rc, es ++ [.free .msg])

/-- The label `err` of both callbacks. -/
def err (es : List Effect) : Ret := (-ebadf, es ++ [.free .msg, .close])

/-- An RSPRO message, the same for both callbacks. -/
def readRspro (msg : Msgb) : Ret :=
  match E.rsproDecMsg msg with
  | none => leave (-eio) []
  | some pdu => leave (E.handleRx pdu) [.decoded, .handled pdu, .free .pdu]

/-- `srvc_read_cb()`. -/
def srvcReadCb (res : ℤ) (msg : Msgb) : Option Ret :=
  if res ≤ 0 then some (err [])
  else match msg.proto, msg.protoExt with
    | .ipaccess, _ =>
        match msg.l2 with
        | [] => none
        | msgType :: _ =>
            (E.ipaccessBtsHandleCcm msg).map fun r =>
              -- freed here, and again behind the `switch`
              if r.1 < 0 then leave r.1 (r.2 ++ [.free .msg])
              else if msgType = E.msgt.pong then leave 0 (r.2 ++ [.pongReceived])
              else leave r.1 r.2
    | .osmo, .rspro => some (E.readRspro msg)
    | .osmo, .other => some (err [])
    | .other, _ => some (err [])

/-- `_ipa_srv_conn_ccm()`. -/
def ipaSrvConnCcm (msg : Msgb) : Option Ret :=
  match msg.l2 with
  | [] => none
  | msgType :: rest =>
      if msgType = E.msgt.ping then
        if E.ipaCcmSendPong < 0 then some (-1, []) else some (0, [])
      else if msgType = E.msgt.pong then some (0, [.pongReceived])
      else if msgType = E.msgt.idAck then
        if E.ipaCcmSendIdAck < 0 then some (-1, []) else some (0, [])
      else if msgType = E.msgt.idResp then
        if E.ipaCcmIdRespParse rest < 0 then some (-1, [])
        else match E.tlvpLenUnit rest with
          | none => some (-1, [])
          | some len => if len < 1 then some (-1, []) else some (0, [])
      else some (-1, [])

/-- `sock_read_cb()`. -/
def sockReadCb (res : ℤ) (msg : Msgb) : Option Ret :=
  if res ≤ 0 then some (err [])
  else match msg.proto, msg.protoExt with
    | .ipaccess, _ =>
        (E.ipaSrvConnCcm msg).map fun r => if r.1 < 0 then err r.2 else leave r.1 r.2
    | .osmo, .rspro => some (E.readRspro msg)
    | .osmo, .other => some (err [])
    | .other, _ => some (err [])

/-! ### Sending -/

/-- `rspro_enc_msg()`: the message, if there is one. -/
def rsproEncMsg (pdu : RsproPDU) : Option (List UInt8) × List Effect :=
  if !E.msgbAlloc then (none, [])
  else match E.derEncode pdu with
    | none => (none, [.free .msgTx])
    | some l2 => (some l2, [.free .pdu])

/-- `cli_conn_send_rspro()`. -/
def cliConnSendRspro (pdu : RsproPDU) : Ret :=
  match E.rsproEncMsg pdu with
  | (none, es) => (-1, es ++ [.free .pdu])
  | (some _, es) => (0, es ++ [.queued])

/-- `osmo_fsm_inst_dispatch()` of `SRVC_E_RSPRO_TX`; the state that permits it ignores the result
of `_server_conn_send_rspro()`. -/
def dispatchRsproTx (st : ServerConnState) (pdu : RsproPDU) : Ret :=
  if st.inEventMask (.rsproTx pdu) then (0, (E.cliConnSendRspro pdu).2) else (-1, [])

/-- `server_conn_send_rspro()`. -/
def serverConnSendRspro (st : ServerConnState) : Option RsproPDU → Ret
  | none => (-einval, [])
  | some pdu =>
      let r := E.dispatchRsproTx st pdu
      if r.1 < 0 then (-eperm, r.2 ++ [.free .pdu]) else (0, r.2)

/-- `client_conn_send()`. -/
def clientConnSend : Option RsproPDU → List Effect
  | none => []
  | some pdu =>
      match E.rsproEncMsg pdu with
      | (none, es) => es ++ [.free .pdu]
      | (some _, es) => es ++ [.queued]

/-! ### Every object is freed once -/

/-- The function returns; it has freed the message once, and the decoded PDU, if any, once. -/
def ReadReleases (o : Option Ret) : Prop :=
  ∃ rc es, o = some (rc, es) ∧ es.count (.free .msg) = 1 ∧
    es.count (.free .pdu) = es.count .decoded

/-- The PDU has been freed once. -/
def SendReleases (es : List Effect) : Prop := es.count (.free .pdu) = 1

/-- A call of one of the four functions, with its arguments and the state it depends on. -/
inductive Call where
  | srvcReadCb (res : ℤ) (msg : Msgb)
  | sockReadCb (res : ℤ) (msg : Msgb)
  | serverConnSendRspro (st : ServerConnState) (pdu : RsproPDU)
  | clientConnSend (pdu : RsproPDU)

/-- The call releases the objects it is responsible for. -/
def Releases : Call → Prop
  | .srvcReadCb res msg => ReadReleases (E.srvcReadCb res msg)
  | .sockReadCb res msg => ReadReleases (E.sockReadCb res msg)
  | .serverConnSendRspro st pdu => SendReleases (E.serverConnSendRspro st (some pdu)).2
  | .clientConnSend pdu => SendReleases (E.clientConnSend (some pdu))

/-- The message is not empty, and the IPA helpers can answer it. -/
def Answerable : List UInt8 → Prop
  | [] => False
  | msgType :: rest =>
      0 ≤ E.fd ∧ 0 ≤ E.ipaCcmRcvmsgBtsBase (msgType :: rest) ∧
        (msgType = E.msgt.idGet → E.ipaCcmMakeIdRespFromReq rest = true ∧ E.ipaMsgAlloc = true)

/-- A CCM message that has been read must not be empty; the client side must be able to answer
it. -/
def Handleable : Call → Prop
  | .srvcReadCb res msg => 0 < res → msg.proto = .ipaccess → E.Answerable msg.l2
  | .sockReadCb res msg => 0 < res → msg.proto = .ipaccess → msg.l2 ≠ []
  | _ => True

variable {E}

theorem readReleases_err (es : List Effect) (h₁ : es.count (.free .msg) = 0)
    (h₂ : es.count (.free .pdu) = es.count .decoded) : ReadReleases (some (err es)) := by
  refine ⟨_, _, rfl, ?_, ?_⟩
  · rw [List.count_append, h₁]
    rfl
  · rw [List.count_append, List.count_append, h₂]
    rfl

theorem readReleases_leave (rc : ℤ) (es : List Effect) (h₁ : es.count (.free .msg) = 0)
    (h₂ : es.count (.free .pdu) = es.count .decoded) : ReadReleases (some (leave rc es)) := by
  refine ⟨_, _, rfl, ?_, ?_⟩
  · rw [List.count_append, h₁]
    rfl
  · rw [List.count_append, List.count_append, h₂]
    rfl

theorem readReleases_readRspro (msg : Msgb) : ReadReleases (some (E.readRspro msg)) := by
  unfold readRspro
  cases E.rsproDecMsg msg with
  | none => exact readReleases_leave _ [] rfl rfl
  | some pdu => exact readReleases_leave _ [.decoded, .handled pdu, .free .pdu] rfl rfl

/-- The CCM handler of the client side succeeds exactly on the messages that it can answer; it
frees nothing. -/
theorem ipaccessBtsHandleCcm_cases {msg : Msgb} (h : msg.proto = .ipaccess) :
    (E.Answerable msg.l2 ∧
        ∃ k, E.ipaccessBtsHandleCcm msg = some (1, List.replicate k .queued)) ∨
      (¬E.Answerable msg.l2 ∧ (E.ipaccessBtsHandleCcm msg = none ∨
        ∃ k, E.ipaccessBtsHandleCcm msg = some (-1, List.replicate k .queued))) := by
  unfold ipaccessBtsHandleCcm
  rw [if_neg (not_not.mpr h)]
  cases msg.l2 with
  | nil => exact .inr ⟨id, .inl rfl⟩
  | cons msgType rest =>
      simp only [Answerable]
      by_cases hfd : E.fd < 0
      · refine .inr ⟨fun ha => ?_, .inl (if_pos hfd)⟩
        have := ha.1
        omega
      rw [if_neg hfd]
      by_cases hrc : E.ipaCcmRcvmsgBtsBase (msgType :: rest) < 0
      · refine .inr ⟨fun ha => ?_, .inr ⟨0, if_pos hrc⟩⟩
        have := ha.2.1
        omega
      rw [if_neg hrc]
      have hok : 0 ≤ E.fd ∧ 0 ≤ E.ipaCcmRcvmsgBtsBase (msgType :: rest) := by omega
      by_cases hget : msgType = E.msgt.idGet
      · rw [if_pos hget]
        cases hresp : E.ipaCcmMakeIdRespFromReq rest with
        | false =>
            refine .inr ⟨fun ha => ?_, .inr ⟨0, rfl⟩⟩
            cases (ha.2.2 hget).1
        | true =>
            cases hack : E.ipaMsgAlloc with
            | false =>
                refine .inr ⟨fun ha => ?_, .inr ⟨1, rfl⟩⟩
                cases (ha.2.2 hget).2
            | true => exact .inl ⟨⟨hok.1, hok.2, fun _ => ⟨rfl, rfl⟩⟩, 2, rfl⟩
      · rw [if_neg hget]
        exact .inl ⟨⟨hok.1, hok.2, fun hn => absurd hn hget⟩, 0, rfl⟩

theorem ipaSrvConnCcm_cases {msg : Msgb} (h : msg.l2 ≠ []) :
    ∃ rc es, E.ipaSrvConnCcm msg = some (rc, es) ∧ (es = [] ∨ es = [.pongReceived]) := by
  unfold ipaSrvConnCcm
  cases hl : msg.l2 with
  | nil => exact absurd hl h
  | cons msgType rest =>
      simp only
      split_ifs
      · exact ⟨_, _, rfl, .inl rfl⟩
      · exact ⟨_, _, rfl, .inl rfl⟩
      · exact ⟨_, _, rfl, .inr rfl⟩
      · exact ⟨_, _, rfl, .inl rfl⟩
      · exact ⟨_, _, rfl, .inl rfl⟩
      · exact ⟨_, _, rfl, .inl rfl⟩
      · cases E.tlvpLenUnit rest with
        | none => exact ⟨_, _, rfl, .inl rfl⟩
        | some len =>
            simp only
            split_ifs
            · exact ⟨_, _, rfl, .inl rfl⟩
            · exact ⟨_, _, rfl, .inl rfl⟩
      · exact ⟨_, _, rfl, .inl rfl⟩

theorem count_queued {e : Effect} (h : e ≠ .queued) (k : ℕ) :
    (List.replicate k Effect.queued).count e = 0 := by
  rw [List.count_eq_zero]
  exact fun hm => h (List.eq_of_mem_replicate hm)

/-- The client side frees a CCM message once if it can answer it, and otherwise twice or, where
an assertion fails, not at all. -/
theorem srvcReadCb_ccm {res : ℤ} {msg : Msgb} (hres : 0 < res) (hp : msg.proto = .ipaccess) :
    ReadReleases (E.srvcReadCb res msg) ↔ E.Answerable msg.l2 := by
  unfold srvcReadCb
  rw [if_neg (by omega), hp]
  simp only
  cases hl : msg.l2 with
  | nil => exact iff_of_false (fun ⟨_, _, h, _⟩ => nomatch h) id
  | cons msgType rest =>
      have hm : ∀ k, (List.replicate k Effect.queued).count (.free .msg) = 0 :=
        count_queued nofun
      have hpdu : ∀ k, (List.replicate k Effect.queued).count (.free .pdu) =
          (List.replicate k Effect.queued).count .decoded := by
        intro k
        rw [count_queued (e := .free .pdu) nofun, count_queued (e := .decoded) nofun]
      simp only
      rcases ipaccessBtsHandleCcm_cases (E := E) hp with ⟨ha, k, he⟩ | ⟨hna, he | ⟨k, he⟩⟩
      · rw [hl] at ha
        refine iff_of_true ?_ ha
        rw [he]
        simp only [Option.map_some, show ¬((1 : ℤ) < 0) by decide, if_false]
        split_ifs
        · refine readReleases_leave 0 _ ?_ ?_
          · rw [List.count_append, hm]
            rfl
          · rw [List.count_append, List.count_append, hpdu]
            rfl
        · exact readReleases_leave 1 _ (hm k) (hpdu k)
      · rw [hl] at hna
        rw [he]
        exact iff_of_false (fun ⟨_, _, h, _⟩ => nomatch h) hna
      · rw [hl] at hna
        refine iff_of_false ?_ hna
        rw [he]
        rintro ⟨rc, es, h, hc, _⟩
        simp only [Option.map_some, show ((-1 : ℤ) < 0) by decide, if_true, leave,
          Option.some.injEq, Prod.mk.injEq] at h
        rw [← h.2, List.count_append, List.count_append, hm] at hc
        exact absurd hc (by decide)

theorem sockReadCb_ccm {res : ℤ} {msg : Msgb} (hres : 0 < res) (hp : msg.proto = .ipaccess) :
    ReadReleases (E.sockReadCb res msg) ↔ msg.l2 ≠ [] := by
  unfold sockReadCb
  rw [if_neg (by omega), hp]
  simp only
  by_cases hl : msg.l2 = []
  · refine iff_of_false ?_ (not_not.mpr hl)
    unfold ipaSrvConnCcm
    rw [hl]
    exact fun ⟨_, _, h, _⟩ => nomatch h
  · refine iff_of_true ?_ hl
    obtain ⟨rc, es, he, hes⟩ := ipaSrvConnCcm_cases (E := E) hl
    rw [he, Option.map_some]
    simp only
    split_ifs
    · rcases hes with rfl | rfl
      · exact readReleases_err [] rfl rfl
      · exact readReleases_err [.pongReceived] rfl rfl
    · rcases hes with rfl | rfl
      · exact readReleases_leave rc [] rfl rfl
      · exact readReleases_leave rc [.pongReceived] rfl rfl

theorem rsproEncMsg_free (pdu : RsproPDU) :
    (E.rsproEncMsg pdu).2.count (.free .pdu) = if (E.rsproEncMsg pdu).1.isSome then 1 else 0 := by
  unfold rsproEncMsg
  cases E.msgbAlloc with
  | false => rfl
  | true =>
      simp only [Bool.not_true, Bool.false_eq_true, if_false]
      cases E.derEncode pdu with
      | none => rfl
      | some l2 => rfl

theorem cliConnSendRspro_releases (pdu : RsproPDU) : SendReleases (E.cliConnSendRspro pdu).2 := by
  have h := rsproEncMsg_free (E := E) pdu
  unfold cliConnSendRspro SendReleases
  rcases hr : E.rsproEncMsg pdu with ⟨_ | l2, es⟩
  · rw [hr] at h
    simp only [List.count_append, h]
    rfl
  · rw [hr] at h
    simp only [List.count_append, h]
    rfl

/-- A PDU for the server is freed once, also when the FSM refuses the event. -/
theorem serverConnSendRspro_releases (st : ServerConnState) (pdu : RsproPDU) :
    SendReleases (E.serverConnSendRspro st (some pdu)).2 := by
  by_cases h : st.inEventMask (.rsproTx pdu) = true
  · have hd : E.dispatchRsproTx st pdu = (0, (E.cliConnSendRspro pdu).2) := if_pos h
    simp only [serverConnSendRspro, hd, Int.lt_irrefl, if_false]
    exact cliConnSendRspro_releases pdu
  · have hd : E.dispatchRsproTx st pdu = (-1, []) := if_neg h
    simp only [serverConnSendRspro, hd]
    rfl

theorem clientConnSend_releases (pdu : RsproPDU) :
    SendReleases (E.clientConnSend (some pdu)) := by
  have heq : E.clientConnSend (some pdu) = (E.cliConnSendRspro pdu).2 := by
    simp only [clientConnSend, cliConnSendRspro]
    rcases E.rsproEncMsg pdu with ⟨_ | l2, es⟩ <;> rfl
  rw [heq]
  exact cliConnSendRspro_releases pdu

/-- **Every object is released exactly once in exactly the calls that are not given a CCM message
they cannot handle.** -/
theorem releases_iff (E : Env) (c : Call) : E.Releases c ↔ E.Handleable c := by
  have hread : ∀ {res : ℤ} {msg : Msgb} {o : Option Ret} {P : Prop},
      (0 < res → msg.proto = .ipaccess → (ReadReleases o ↔ P)) →
      (¬(0 < res ∧ msg.proto = .ipaccess) → ReadReleases o) →
      (ReadReleases o ↔ (0 < res → msg.proto = .ipaccess → P)) := by
    intro res msg o P hccm hother
    by_cases h : 0 < res ∧ msg.proto = .ipaccess
    · exact (hccm h.1 h.2).trans ⟨fun hp _ _ => hp, fun hp => hp h.1 h.2⟩
    · exact iff_of_true (hother h) fun h₁ h₂ => absurd ⟨h₁, h₂⟩ h
  cases c with
  | srvcReadCb res msg =>
      refine hread (fun hres hp => srvcReadCb_ccm hres hp) fun hn => ?_
      unfold srvcReadCb
      split_ifs with hres
      · exact readReleases_err [] rfl rfl
      · split
        · exact absurd ⟨by omega, ‹_›⟩ hn
        · exact readReleases_readRspro msg
        · exact readReleases_err [] rfl rfl
        · exact readReleases_err [] rfl rfl
  | sockReadCb res msg =>
      refine hread (fun hres hp => sockReadCb_ccm hres hp) fun hn => ?_
      unfold sockReadCb
      split_ifs with hres
      · exact readReleases_err [] rfl rfl
      · split
        · exact absurd ⟨by omega, ‹_›⟩ hn
        · exact readReleases_readRspro msg
        · exact readReleases_err [] rfl rfl
        · exact readReleases_err [] rfl rfl
  | serverConnSendRspro st pdu => exact iff_of_true (serverConnSendRspro_releases st pdu) trivial
  | clientConnSend pdu => exact iff_of_true (clientConnSend_releases pdu) trivial

/-- The IPA constants, and helpers that work except that the tag `ff` cannot be asked for. -/
def unknownTag : Env where
  msgt := ⟨0, 1, 4, 5, 6⟩
  fd := 7
  ipaCcmRcvmsgBtsBase _ := 0
  ipaCcmMakeIdRespFromReq ies := ies != [0x01, 0xff]
  ipaMsgAlloc := true
  ipaCcmSendPong := 0
  ipaCcmSendIdAck := 0
  ipaCcmIdRespParse _ := 0
  tlvpLenUnit _ := none
  berDecode _ := none
  handleRx _ := 0
  msgbAlloc := true
  derEncode _ := none

/-- An `ID_GET` request for a tag that is not known is freed twice. -/
theorem idGet_freed_twice :
    ¬unknownTag.Releases (.srvcReadCb 6 ⟨.ipaccess, .other, [0x04, 0x01, 0xff]⟩) := by
  rintro ⟨rc, es, h, hc, _⟩
  obtain ⟨rfl, rfl⟩ := Prod.mk.inj (Option.some.inj h)
  exact absurd hc (by decide)

end Env

end Buffers

end Remsim
