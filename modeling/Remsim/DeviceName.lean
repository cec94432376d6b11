import Remsim.Rspro
import Remsim.UciConfig

/-! # The device name of the PC/SC reader driver (`user_ifdhandler.c`, `remsim_client.c`)

The name has the form `[ClientID:[SlotNr:[ServerIp:[ServerPort]]]]`.  `ifdhCreateChannelByName`
peels off its fields with `strtok_r()` and starts a client in a thread of its own, where the
default of the port is filled in; the client is taken as far as `remsim_client_create()` sets up its
connection to the server.  A call of `atoi()` with `NULL` has no result. -/

namespace Remsim.Ifd

open CString Decimal OpenWrt

/-! ### The program -/

/-- The values of `RESPONSECODE` that are returned here. -/
inductive ResponseCode where
  | success
  | noSuchDevice
  | communicationError
deriving DecidableEq, Repr

/-- `struct client_thread_cfg`, without the socket. -/
structure ClientThreadCfg where
  serverHost : List UInt8
  serverPort : ℤ
  clientId : ℤ
  clientSlot : ℤ
deriving DecidableEq, Repr

/-- The fields of the name, up to `end_parse`. -/
def parseDeviceName (deviceName : List UInt8) : Option ClientThreadCfg := do
  let tokens := strtok 58 deviceName
  let cfg : ClientThreadCfg := ⟨ascii "127.0.0.1", -1, 0, 0⟩
  let some clientId := tokens[0]? | return cfg
  let cfg := { cfg with clientId := atoi clientId }
  let some slotNr := tokens[1]? | return cfg
  let cfg := { cfg with clientSlot := atoi slotNr }
  let some host := tokens[2]? | return cfg
  let cfg := { cfg with serverHost := host }
  -- there is no test of the last token
  let port ← tokens[3]?
  return { cfg with serverPort := atoi port }

/-- `client_config_init()`; the options besides these are not looked at. -/
def clientConfigInit : ClientConfig Unit := ⟨ascii "127.0.0.1", 9998, -1, -1, ()⟩

/-- The connection to the server in a new `struct bankd_client`. -/
structure ServerConn where
  serverHost : List UInt8
  serverPort : ℕ
  clslot : ClientSlotT
deriving DecidableEq, Repr

/-- `remsim_client_set_clslot()` of a client that has no slot yet. -/
def setClslot (clientId slotNr : ℤ) : ClientSlotT where
  clientId := if 0 ≤ clientId then clientId else 0
  slotNr := if 0 ≤ slotNr then slotNr else 0

/-- `remsim_client_create()`; the port is stored in 16 bits. -/
def remsimClientCreate (cfg : ClientConfig Unit) : ServerConn where
  serverHost := cfg.serverHost
  serverPort := (cfg.serverPort % 2 ^ 16).toNat
  clslot := setClslot cfg.clientId cfg.clientSlot

/-- `client_pthread_main()`, up to the creation of the client. -/
def clientPthreadMain (cfg : ClientThreadCfg) : ServerConn :=
  let ccfg := { clientConfigInit with serverHost := cfg.serverHost }
  let ccfg := if 0 ≤ cfg.serverPort then { ccfg with serverPort := cfg.serverPort } else ccfg
  remsimClientCreate { ccfg with clientId := cfg.clientId, clientSlot := cfg.clientSlot }

/-- `create_ifd_client()`, for which the system has a socket pair and a thread or not. -/
def createIfdClient (resources : Bool) (cfg : ClientThreadCfg) : Option ServerConn :=
  if resources then some (clientPthreadMain cfg) else none

/-- `IFDHCreateChannelByName()`, with the table `ifd_client` of its module. -/
def ifdhCreateChannelByName (resources : Bool) (lun : ℕ) (deviceName : List UInt8)
    (ifdClient : ℕ → Option ServerConn) : Option (ResponseCode × (ℕ → Option ServerConn)) :=
  if lun / 65536 ≠ 0 then some (.noSuchDevice, ifdClient)
  else if 256 ≤ lun % 65536 then some (.noSuchDevice, ifdClient)
  else do
    let cfg ← parseDeviceName deviceName
    match createIfdClient resources cfg with
    | some ic => return (.success, Function.update ifdClient (lun % 65536) (some ic))
    | none => return (.communicationError, ifdClient)

/-! ### The documented form -/

/-- The fields of a device name: a client, a slot, a host and a port. -/
structure Documented (fields : List (List UInt8)) : Prop where
  length : fields.length ≤ 4
  ne_nil : ∀ f ∈ fields, f ≠ []
  colon : ∀ f ∈ fields, 58 ∉ f
  clientId : ∀ f, fields[0]? = some f → IsNumber f
  slotNr : ∀ f, fields[1]? = some f → IsNumber f
  port : ∀ f, fields[3]? = some f → IsNumber f

/-- The name with the fields, which may have a colon behind the last one. -/
def deviceName (fields : List (List UInt8)) (trailing : Bool) : List UInt8 :=
  List.intercalate [58] (fields ++ if trailing then [[]] else [])

/-- The number in a field, or its default. -/
def number (field : Option (List UInt8)) (default : ℕ) : ℕ := (field.map value).getD default

/-- The client that the fields stand for. -/
def clientOf (fields : List (List UInt8)) : ServerConn where
  serverHost := fields[2]?.getD (ascii "127.0.0.1")
  serverPort := number fields[3]? 9998
  clslot := ⟨number fields[0]? 0, number fields[1]? 0⟩

/-- The numbers fit into an `int` and a port. -/
structure InRange (fields : List (List UInt8)) : Prop where
  clientId : number fields[0]? 0 < 2 ^ 31
  slotNr : number fields[1]? 0 < 2 ^ 31
  port : number fields[3]? 9998 < 2 ^ 16

example : deviceName [ascii "0", ascii "3", ascii "192.168.11.10"] true =
    ascii "0:3:192.168.11.10:" := by decide

section parse

variable {fields : List (List UInt8)}

theorem strtok_deviceName (h : Documented fields) (trailing : Bool) :
    strtok 58 (deviceName fields trailing) = fields := by
  have hkeep : fields.filter (· ≠ []) = fields :=
    List.filter_eq_self.mpr fun f hf => decide_eq_true (h.ne_nil f hf)
  have hcolon : ∀ f ∈ fields ++ (if trailing then [[]] else []), (58 : UInt8) ∉ f := by
    intro f hf
    rcases List.mem_append.mp hf with hf | hf
    · exact h.colon f hf
    · split_ifs at hf
      · rw [List.mem_singleton.mp hf]
        exact List.not_mem_nil
      · cases hf
  rw [deviceName, strtok_intercalate hcolon, List.filter_append, hkeep]
  cases trailing <;> exact List.append_nil fields

/-- What the fields of a name come to: the name ends at any of them but the third. -/
theorem parseDeviceName_of_strtok {name : List UInt8} (h : strtok 58 name = fields)
    (hlen : fields.length ≤ 4) :
    parseDeviceName name = if fields.length = 3 then none else
      some ⟨fields[2]?.getD (ascii "127.0.0.1"), (fields[3]?.map atoi).getD (-1),
        (fields[0]?.map atoi).getD 0, (fields[1]?.map atoi).getD 0⟩ := by
  rw [parseDeviceName, h]
  rcases fields with _ | ⟨_, _ | ⟨_, _ | ⟨_, _ | ⟨_, _ | ⟨_, rest⟩⟩⟩⟩⟩
  · rfl
  · rfl
  · rfl
  · rfl
  · rfl
  · simp only [List.length_cons] at hlen
    omega

end parse

/-! ### The client -/

section client

/-- A client or slot number arrives when it is an `int`; a negative one would become zero. -/
theorem clslot_number {field : Option (List UInt8)} (h : ∀ f, field = some f → IsNumber f) :
    (let n := (field.map atoi).getD 0; if 0 ≤ n then n else 0) = (number field 0 : ℤ) ↔
      number field 0 < 2 ^ 31 := by
  cases field with
  | none => exact iff_of_true rfl (by decide)
  | some f =>
      have hiff := atoi_eq_value_iff (h f rfl)
      have hlt := atoi_lt f
      simp only [number, Option.map_some, Option.getD_some]
      split_ifs <;> omega

theorem port_number {field : Option (List UInt8)} (h : ∀ f, field = some f → IsNumber f) :
    (let p := (field.map atoi).getD (-1); (if 0 ≤ p then p else 9998) % 2 ^ 16).toNat =
      number field 9998 ↔ number field 9998 < 2 ^ 16 := by
  cases field with
  | none => exact iff_of_true rfl (by decide)
  | some f =>
      have hiff := atoi_eq_value_iff (h f rfl)
      have hlt := atoi_lt f
      simp only [number, Option.map_some, Option.getD_some]
      split_ifs <;> omega

theorem clientPthreadMain_eq (cfg : ClientThreadCfg) :
    clientPthreadMain cfg = ⟨cfg.serverHost,
      ((if 0 ≤ cfg.serverPort then cfg.serverPort else 9998) % 2 ^ 16).toNat,
      ⟨if 0 ≤ cfg.clientId then cfg.clientId else 0,
        if 0 ≤ cfg.clientSlot then cfg.clientSlot else 0⟩⟩ := by
  unfold clientPthreadMain
  by_cases h : 0 ≤ cfg.serverPort
  · simp only [if_pos h]
    rfl
  · simp only [if_neg h]
    rfl

theorem clientPthreadMain_fields {fields : List (List UInt8)} (h : Documented fields) :
    clientPthreadMain ⟨fields[2]?.getD (ascii "127.0.0.1"), (fields[3]?.map atoi).getD (-1),
        (fields[0]?.map atoi).getD 0, (fields[1]?.map atoi).getD 0⟩ = clientOf fields ↔
      InRange fields := by
  have hid := clslot_number h.clientId
  have hslot := clslot_number h.slotNr
  have hport := port_number h.port
  rw [clientPthreadMain_eq, clientOf, ServerConn.mk.injEq, ClientSlotT.mk.injEq]
  constructor
  · rintro ⟨-, hp, hi, hs⟩
    exact ⟨hid.mp hi, hslot.mp hs, hport.mp hp⟩
  · intro hr
    exact ⟨rfl, hport.mpr hr.port, hid.mpr hr.clientId, hslot.mpr hr.slotNr⟩

end client

section channel

variable {resources : Bool} {lun : ℕ} {ifdClient : ℕ → Option ServerConn}

/-- Only the first reader has slots, and no more than the table. -/
theorem ifdhCreateChannelByName_noSuchDevice (h : 256 ≤ lun) (name : List UInt8) :
    ifdhCreateChannelByName resources lun name ifdClient = some (.noSuchDevice, ifdClient) := by
  unfold ifdhCreateChannelByName
  by_cases hrdr : lun / 65536 ≠ 0
  · exact if_pos hrdr
  · rw [if_neg hrdr]
    exact if_pos (by omega)

theorem ifdhCreateChannelByName_of_lt (h : lun < 256) (name : List UInt8) :
    ifdhCreateChannelByName resources lun name ifdClient =
      (parseDeviceName name).map fun cfg =>
        if resources then
          (.success, Function.update ifdClient lun (some (clientPthreadMain cfg)))
        else (.communicationError, ifdClient) := by
  unfold ifdhCreateChannelByName
  rw [if_neg (by omega), if_neg (by omega), Nat.mod_eq_of_lt (by omega)]
  cases parseDeviceName name with
  | none => rfl
  | some cfg => cases resources <;> rfl

/-- **A device name starts the client that it describes exactly when it does not end with the host
and its numbers are in range**; a name that ends with the host has `NULL` converted. -/
theorem channel_iff {fields : List (List UInt8)} (h : Documented fields) (trailing : Bool)
    (hlun : lun < 256) :
    (ifdhCreateChannelByName true lun (deviceName fields trailing) ifdClient =
        some (.success, Function.update ifdClient lun (some (clientOf fields))) ↔
      fields.length ≠ 3 ∧ InRange fields) ∧
    (ifdhCreateChannelByName true lun (deviceName fields trailing) ifdClient = none ↔
      fields.length = 3) := by
  rw [ifdhCreateChannelByName_of_lt hlun,
    parseDeviceName_of_strtok (strtok_deviceName h trailing) h.length]
  by_cases hthree : fields.length = 3
  · rw [if_pos hthree, Option.map_none]
    exact ⟨iff_of_false (Option.some_ne_none _).symm fun hc => hc.1 hthree, iff_of_true rfl hthree⟩
  · have hupdate := Function.update_injective ifdClient lun
    rw [if_neg hthree, Option.map_some, if_pos rfl, Option.some_inj, Prod.mk.injEq,
      eq_self_iff_true, true_and, hupdate.eq_iff, Option.some_inj, clientPthreadMain_fields h]
    exact ⟨(and_iff_right hthree).symm, iff_of_false (Option.some_ne_none _) hthree⟩

theorem channel_four : ifdhCreateChannelByName true 0
      (deviceName [ascii "7", ascii "3", ascii "192.168.11.10", ascii "9999"] false)
      (fun _ => none) = some (.success, Function.update (fun _ => none) 0
        (some (clientOf [ascii "7", ascii "3", ascii "192.168.11.10", ascii "9999"]))) := by
  refine (channel_iff ⟨by decide, by decide, by decide, ?_, ?_, ?_⟩ false (by decide)).1.mpr
    ⟨by decide, by decide, by decide, by decide⟩
  · rintro _ ⟨⟩
    decide +kernel
  · rintro _ ⟨⟩
    decide +kernel
  · rintro _ ⟨⟩
    decide +kernel

/-- A name with a host and without a port converts `NULL`. -/
theorem channel_three : ¬∀ fields, Documented fields → ∀ trailing,
    ifdhCreateChannelByName true 0 (deviceName fields trailing) (fun _ => none) ≠ none := by
  intro h
  have hdoc : Documented [ascii "0", ascii "0", ascii "192.168.11.10"] := by
    refine ⟨by decide, by decide, by decide, ?_, ?_, ?_⟩
    · rintro _ ⟨⟩
      decide +kernel
    · rintro _ ⟨⟩
      decide +kernel
    · rintro _ ⟨⟩
  apply h _ hdoc false
  rw [ifdhCreateChannelByName_of_lt (by decide),
    parseDeviceName_of_strtok (strtok_deviceName hdoc false) hdoc.length]
  rfl

end channel

end Remsim.Ifd
