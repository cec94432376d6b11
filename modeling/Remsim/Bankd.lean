import Remsim.Rspro

/-! # The main thread of the bankd (`bankd_main.c`)

`bankdSrvcHandleRx` is the handler for PDUs from the server.  It works on the table of mappings and
answers with a response, the notices it sends to the worker threads, and the events it dispatches
to the FSM of the server connection.  Bank and slot numbers of a request are compared as the C
`long` values of the PDU and truncated to 16 bits only afterwards.

`tableCreate` and `tableRemove` say on the slot pairs alone what the handler does to the table. -/

namespace Remsim

/-- The identity of this bank (`srvc.bankd`). -/
structure BankCfg where
  bankId : UInt16
  numSlots : UInt16
deriving DecidableEq, Repr

/-- What the main thread tells its workers. -/
inductive Notice where
  /-- `bankd_srvc_remove_mapping()`: `SIGMAPDEL` to the first worker of the bank slot.  The client
  slot of the removed mapping is not used for the choice. -/
  | mapDel (bank : BankSlot) (client : ClientSlot)
  /-- `SIGMAPADD` to the first worker of the client slot of a new mapping. -/
  | mapAdd (bank : BankSlot) (client : ClientSlot)
  /-- `SIGMAPDEL` to all workers. -/
  | allDel
deriving DecidableEq, Repr

/-- The events that the handler dispatches to the FSM of the server connection. -/
inductive SrvcEvent where
  | disconnect
  | clientConnRes (result : ResultCode)
deriving DecidableEq, Repr

/-- What handling a PDU leads to. -/
structure Handled where
  slotmaps : Slotmaps
  notices : List Notice
  resp : Option RsproPDU
  event : Option SrvcEvent

namespace BankCfg

variable (bank : BankCfg)

/-- The checks of bank and slot number, the same for both requests. -/
def check (b : BankSlotT) : ResultCode :=
  if b.bankId ≠ (bank.bankId.toNat : ℤ) then .illegalBankId
  else if b.slotNr ≥ (bank.numSlots.toNat : ℤ) then .illegalSlotId
  else .ok

/-- Adding a mapping whose bank slot is free by now. -/
def addMapping (sm : Slotmaps) (notices : List Notice) (bs : BankSlot) (cs : ClientSlot) :
    Handled :=
  match sm.slotmapAdd bs cs with
  | none => ⟨sm, notices, some (.createMappingRes .illegalSlotId), none⟩
  | some (_, sm) => ⟨sm, notices ++ [.mapAdd bs cs], some (.createMappingRes .ok), none⟩

/-- A `createMappingReq` that passed the checks. -/
def createMapping (sm : Slotmaps) (bs : BankSlot) (cs : ClientSlot) : Handled :=
  match (sm.slotmapByBank bs).bind fun m => (sm.heap m).map fun x => (m, x) with
  | none => addMapping sm [] bs cs
  | some (m, x) =>
      if x.client = cs then ⟨sm, [], some (.createMappingRes .ok), none⟩
      else addMapping (sm.slotmapDel m) [.mapDel x.bank x.client] bs cs

/-- A `removeMappingReq` that passed the checks. -/
def removeMapping (sm : Slotmaps) (bs : BankSlot) (cs : ClientSlot) : Handled :=
  match (sm.slotmapByBank bs).bind fun m => (sm.heap m).map fun x => (m, x) with
  | none => ⟨sm, [], some (.removeMappingRes .unknownSlotmap), none⟩
  | some (m, x) =>
      if x.client ≠ cs then ⟨sm, [], some (.removeMappingRes .unknownSlotmap), none⟩
      else ⟨sm.slotmapDel m, [.mapDel x.bank x.client], some (.removeMappingRes .ok), none⟩

/-- `bankd_srvc_handle_rx()`. -/
def bankdSrvcHandleRx (sm : Slotmaps) : RsproPDU → Handled
  | .connectBankRes identity result =>
      ⟨sm, [], none,
        some (if identity ≠ .remsimServer then .disconnect else .clientConnRes result)⟩
  | .createMappingReq client b =>
      match bank.check b with
      | .ok => createMapping sm (rspro2bankSlot b) (rspro2clientSlot client)
      | r => ⟨sm, [], some (.createMappingRes r), none⟩
  | .removeMappingReq client b =>
      match bank.check b with
      | .ok => removeMapping sm (rspro2bankSlot b) (rspro2clientSlot client)
      | r => ⟨sm, [], some (.removeMappingRes r), none⟩
  | .resetStateReq => ⟨sm.slotmapDelAll, [.allDel], some (.resetStateRes .ok), none⟩
  | _ => ⟨sm, [], none, none⟩

end BankCfg

/-! ### Effect on the slot pairs -/

/-- A table of slot pairs. -/
abbrev Table := List (BankSlot × ClientSlot)

/-- Creating a mapping: nothing for an identical one; otherwise the mapping of the bank slot gives
way, and the new one is added if the client slot is free. -/
def tableCreate (t : Table) (e : BankSlot × ClientSlot) : Table :=
  if e ∈ t then t
  else if ∃ d ∈ t, d.1 ≠ e.1 ∧ d.2 = e.2 then t.filter fun d => d.1 ≠ e.1
  else (t.filter fun d => d.1 ≠ e.1) ++ [e]

/-- Removing a mapping. -/
def tableRemove (t : Table) (e : BankSlot × ClientSlot) : Table := t.filter (· ≠ e)

namespace BankCfg

variable {bank : BankCfg} {sm : Slotmaps}

/-- The lookup of a bank slot, in terms of the table. -/
theorem find_bank (sm : Slotmaps) (bs : BankSlot) :
    ((sm.slotmapByBank bs).bind fun m => (sm.heap m).map fun x => (m, x)) = none ∧
        (∀ e ∈ sm.table, e.1 ≠ bs) ∨
      ∃ m x, ((sm.slotmapByBank bs).bind fun m => (sm.heap m).map fun x => (m, x)) = some (m, x) ∧
        m ∈ sm.mappings ∧ sm.heap m = some x ∧ x.bank = bs ∧ (bs, x.client) ∈ sm.table := by
  cases hf : sm.slotmapByBank bs with
  | none => exact .inl ⟨rfl, Slotmaps.slotmapByBank_eq_none.mp hf⟩
  | some m =>
      obtain ⟨hm, x, hx, rfl⟩ := sm.slotmapByBank_some hf
      refine .inr ⟨m, x, ?_, hm, hx, rfl, Slotmaps.mem_table.mpr ⟨m, hm, x, hx, rfl⟩⟩
      rw [Option.bind_some, hx, Option.map_some]

/-- What `addMapping` does when the bank slot is free. -/
theorem addMapping_spec (h : sm.Wf) {bs : BankSlot} (cs : ClientSlot)
    (hfree : ∀ e ∈ sm.table, e.1 ≠ bs) (ns : List Notice) :
    (addMapping sm ns bs cs).slotmaps.Wf ∧
      (addMapping sm ns bs cs).slotmaps.table =
        (if ∃ d ∈ sm.table, d.2 = cs then sm.table else sm.table ++ [(bs, cs)]) ∧
      (addMapping sm ns bs cs).notices =
        (if ∃ d ∈ sm.table, d.2 = cs then ns else ns ++ [.mapAdd bs cs]) ∧
      (addMapping sm ns bs cs).resp = some (.createMappingRes
        (if ∃ d ∈ sm.table, d.2 = cs then .illegalSlotId else .ok)) ∧
      (addMapping sm ns bs cs).event = none := by
  unfold addMapping
  cases ha : sm.slotmapAdd bs cs with
  | none =>
      have hc : ∃ d ∈ sm.table, d.2 = cs := by
        by_contra hc
        refine ((sm.slotmapAdd_eq_none).mp ha).elim (fun hb => ?_) fun hb => ?_
        · exact hb (Slotmaps.slotmapByBank_eq_none.mpr hfree)
        · exact hb (Slotmaps.slotmapByClient_eq_none.mpr fun e he e' => hc ⟨e, he, e'⟩)
      simp only [if_pos hc]
      exact ⟨h, trivial, trivial, trivial, trivial⟩
  | some r =>
      have hc : ¬∃ d ∈ sm.table, d.2 = cs := by
        rintro ⟨d, hd, he⟩
        exact Slotmaps.slotmapByClient_eq_none.mp ((sm.slotmapAdd_eq_some).mp ha).2.1 d hd he
      simp only [if_neg hc]
      exact ⟨h.slotmapAdd ha, h.table_slotmapAdd ha, trivial, trivial, trivial⟩

/-- What an accepted create request has done to the table `t`, and whom it tells: the mapping that
gave way is announced, and so is the new one. -/
structure Creates (t : Table) (bs : BankSlot) (cs : ClientSlot) (r : Handled) : Prop where
  wf : r.slotmaps.Wf
  table : r.slotmaps.table = tableCreate t (bs, cs)
  mapDel : ∀ b c, .mapDel b c ∈ r.notices ↔ b = bs ∧ c ≠ cs ∧ (b, c) ∈ t
  mapAdd : ∀ b c, .mapAdd b c ∈ r.notices ↔
    b = bs ∧ c = cs ∧ (b, c) ∉ t ∧ (b, c) ∈ tableCreate t (bs, cs)
  event : r.event = none
  resp : ∃ x, r.resp = some (.createMappingRes x)

/-- A mapping that is not there is added to what is left when its bank slot has been freed. -/
theorem tableCreate_of_not_mem {t t' : Table} {bs : BankSlot} {cs : ClientSlot}
    (hne : (bs, cs) ∉ t) (ht : t' = t.filter fun d => d.1 ≠ bs) :
    tableCreate t (bs, cs) = if ∃ d ∈ t', d.2 = cs then t' else t' ++ [(bs, cs)] := by
  have hex : (∃ d ∈ t, d.1 ≠ bs ∧ d.2 = cs) ↔ ∃ d ∈ t', d.2 = cs := by
    rw [ht]
    simp only [List.mem_filter, decide_eq_true_eq, and_assoc]
  unfold tableCreate
  rw [if_neg hne]
  simp only [hex, ht]

/-- `addMapping`, given the table and the notices that are left when the bank slot of a mapping that
is not there has been freed. -/
theorem creates_addMapping {sm' : Slotmaps} {t : Table} {bs : BankSlot} {cs : ClientSlot}
    {ns : List Notice} (h : sm'.Wf) (hne : (bs, cs) ∉ t)
    (ht : sm'.table = t.filter fun d => d.1 ≠ bs) (hadd : ∀ b c, .mapAdd b c ∉ ns)
    (hdel : ∀ b c, .mapDel b c ∈ ns ↔ b = bs ∧ c ≠ cs ∧ (b, c) ∈ t) :
    Creates t bs cs (addMapping sm' ns bs cs) := by
  have hfree : ∀ e ∈ sm'.table, e.1 ≠ bs := by
    intro e he
    rw [ht, List.mem_filter] at he
    simpa using he.2
  obtain ⟨h₁, h₂, h₃, h₄, h₅⟩ := addMapping_spec h cs hfree ns
  have htable := tableCreate_of_not_mem hne ht
  refine ⟨h₁, h₂.trans htable.symm, fun b c => ?_, fun b c => ?_, h₅, _, h₄⟩
  · rw [h₃, ← hdel]
    split_ifs
    · rfl
    · simp
  · rw [h₃, htable]
    by_cases hc : ∃ d ∈ sm'.table, d.2 = cs
    · simp only [if_pos hc, hadd, false_iff]
      rintro ⟨rfl, _, _, hb⟩
      exact hfree _ hb rfl
    · simp only [if_neg hc, List.mem_append, hadd, List.mem_singleton, Notice.mapAdd.injEq,
        Prod.mk.injEq, false_or]
      constructor
      · rintro ⟨rfl, rfl⟩
        exact ⟨rfl, rfl, hne, .inr ⟨rfl, rfl⟩⟩
      · rintro ⟨rfl, rfl, _⟩
        exact ⟨rfl, rfl⟩

theorem creates_free (h : sm.Wf) {bs : BankSlot} (cs : ClientSlot)
    (hfree : ∀ e ∈ sm.table, e.1 ≠ bs) : Creates sm.table bs cs (addMapping sm [] bs cs) := by
  refine creates_addMapping h (fun he => hfree _ he rfl) ?_ (fun b c => by simp) fun b c => ?_
  · rw [eq_comm, List.filter_eq_self]
    intro d hd
    simpa using hfree d hd
  · simp only [List.not_mem_nil, false_iff]
    rintro ⟨rfl, _, hn⟩
    exact hfree _ hn rfl

theorem creates_same (h : sm.Wf) {bs : BankSlot} {cs : ClientSlot} (hmem : (bs, cs) ∈ sm.table) :
    Creates sm.table bs cs ⟨sm, [], some (.createMappingRes .ok), none⟩ := by
  have ht : tableCreate sm.table (bs, cs) = sm.table := if_pos hmem
  refine ⟨h, ht.symm, fun b c => ?_, fun b c => ?_, rfl, _, rfl⟩
  · simp only [List.not_mem_nil, false_iff]
    rintro ⟨rfl, hne, hb⟩
    exact hne (Prod.mk.inj (h.table_bank hb hmem rfl)).2
  · simp only [List.not_mem_nil, false_iff, ht]
    rintro ⟨_, _, h₁, h₂⟩
    exact h₁ h₂

theorem creates_other (h : sm.Wf) {m : MapId} {x : SlotMapping} {cs : ClientSlot}
    (hm : m ∈ sm.mappings) (hx : sm.heap m = some x) (hmem : (x.bank, x.client) ∈ sm.table)
    (hc : x.client ≠ cs) :
    Creates sm.table x.bank cs
      (addMapping (sm.slotmapDel m) [.mapDel x.bank x.client] x.bank cs) := by
  refine creates_addMapping (h.slotmapDel m)
    (fun he => hc (Prod.mk.inj (h.table_bank hmem he rfl)).2) (h.table_slotmapDel hm hx)
    (fun b c => by simp) fun b c => ?_
  simp only [List.mem_singleton, Notice.mapDel.injEq]
  constructor
  · rintro ⟨rfl, rfl⟩
    exact ⟨rfl, hc, hmem⟩
  · rintro ⟨rfl, _, hb⟩
    exact ⟨rfl, (Prod.mk.inj (h.table_bank hb hmem rfl)).2⟩

/-- **What an accepted create request does.** -/
theorem createMapping_spec (h : sm.Wf) (bs : BankSlot) (cs : ClientSlot) :
    Creates sm.table bs cs (createMapping sm bs cs) := by
  unfold createMapping
  rcases find_bank sm bs with ⟨hf, hfree⟩ | ⟨m, x, hf, hm, hx, rfl, hmem⟩
  · simp only [hf]
    exact creates_free h cs hfree
  · simp only [hf]
    by_cases hc : x.client = cs
    · rw [if_pos hc]
      exact creates_same h (hc ▸ hmem)
    · rw [if_neg hc]
      exact creates_other h hm hx hmem hc

/-- **What an accepted remove request does.** -/
theorem removeMapping_spec (h : sm.Wf) (bs : BankSlot) (cs : ClientSlot) :
    (removeMapping sm bs cs).slotmaps.Wf ∧
      (removeMapping sm bs cs).slotmaps.table = tableRemove sm.table (bs, cs) ∧
      (∀ b c, .mapDel b c ∈ (removeMapping sm bs cs).notices ↔
        b = bs ∧ c = cs ∧ (b, c) ∈ sm.table) ∧
      (∀ b c, .mapAdd b c ∉ (removeMapping sm bs cs).notices) ∧
      (removeMapping sm bs cs).event = none ∧
      ∃ r, (removeMapping sm bs cs).resp = some (.removeMappingRes r) := by
  have hkeep : (bs, cs) ∉ sm.table → tableRemove sm.table (bs, cs) = sm.table := by
    intro hn
    unfold tableRemove
    rw [List.filter_eq_self]
    intro d hd
    simpa using fun e : d = (bs, cs) => hn (e ▸ hd)
  unfold removeMapping
  rcases find_bank sm bs with ⟨hf, hfree⟩ | ⟨m, x, hf, hm, hx, hxb, hmem⟩
  · have hne : (bs, cs) ∉ sm.table := fun he => hfree _ he rfl
    simp only [hf]
    refine ⟨h, (hkeep hne).symm, fun b c => ?_, fun b c => by simp, trivial, _, rfl⟩
    simp only [List.not_mem_nil, false_iff]
    rintro ⟨rfl, rfl, hb⟩
    exact hne hb
  · simp only [hf]
    by_cases hc : x.client = cs
    · simp only [hc, ne_eq, not_true_eq_false, if_false]
      have hdel := h.table_slotmapDel hm hx
      rw [hxb] at hdel
      refine ⟨h.slotmapDel m, hdel.trans ?_, fun b c => ?_, fun b c => by simp, trivial, _, rfl⟩
      · unfold tableRemove
        refine List.filter_congr fun d hd => ?_
        rw [decide_eq_decide, not_iff_not]
        refine ⟨fun e => ?_, fun e => by rw [e]⟩
        rw [hc] at hmem
        exact h.table_bank hd hmem e
      · simp only [List.mem_singleton, Notice.mapDel.injEq, hxb]
        constructor
        · rintro ⟨rfl, rfl⟩
          exact ⟨rfl, rfl, hc ▸ hmem⟩
        · rintro ⟨rfl, rfl, _⟩
          exact ⟨rfl, rfl⟩
    · have hne : (bs, cs) ∉ sm.table := fun he =>
        hc (Prod.mk.inj (h.table_bank hmem he rfl)).2
      simp only [ne_eq, hc, not_false_eq_true, if_true]
      refine ⟨h, (hkeep hne).symm, fun b c => ?_, fun b c => by simp, trivial, _, rfl⟩
      simp only [List.not_mem_nil, false_iff]
      rintro ⟨rfl, rfl, hb⟩
      exact hne hb

/-- The effect of a PDU on the table. -/
def tableStep (bank : BankCfg) (t : Table) : RsproPDU → Table
  | .createMappingReq client b =>
      if bank.check b = .ok then tableCreate t (rspro2bankSlot b, rspro2clientSlot client) else t
  | .removeMappingReq client b =>
      if bank.check b = .ok then tableRemove t (rspro2bankSlot b, rspro2clientSlot client) else t
  | .resetStateReq => []
  | _ => t

/-- **Handling a PDU changes the table as `tableStep` says.** -/
theorem table_bankdSrvcHandleRx (bank : BankCfg) (h : sm.Wf) (pdu : RsproPDU) :
    (bank.bankdSrvcHandleRx sm pdu).slotmaps.Wf ∧
      (bank.bankdSrvcHandleRx sm pdu).slotmaps.table = bank.tableStep sm.table pdu := by
  cases pdu with
  | createMappingReq client b =>
      simp only [bankdSrvcHandleRx, tableStep]
      cases bank.check b with
      | ok =>
          have hc := createMapping_spec h (rspro2bankSlot b) (rspro2clientSlot client)
          exact ⟨hc.wf, hc.table⟩
      | _ => exact ⟨h, rfl⟩
  | removeMappingReq client b =>
      simp only [bankdSrvcHandleRx, tableStep]
      cases bank.check b with
      | ok =>
          obtain ⟨h₁, h₂, _⟩ := removeMapping_spec h (rspro2bankSlot b) (rspro2clientSlot client)
          exact ⟨h₁, h₂⟩
      | _ => exact ⟨h, rfl⟩
  | resetStateReq => exact h.slotmapDelAll
  | _ => exact ⟨h, rfl⟩

/-- The bank slots that this bankd accepts. -/
def serves (bank : BankCfg) (b : BankSlot) : Bool :=
  decide (b.bankId = bank.bankId) && decide (b.slotNr < bank.numSlots)

theorem check_bankSlot2rspro (b : BankSlot) :
    bank.check (bankSlot2rspro b) = .ok ↔ bank.serves b = true := by
  unfold check serves bankSlot2rspro
  have hid : ((b.bankId.toNat : ℤ) ≠ bank.bankId.toNat) ↔ b.bankId ≠ bank.bankId := by
    rw [Ne, Ne, Int.natCast_inj, UInt16.toNat_inj]
  have hnr : ((b.slotNr.toNat : ℤ) ≥ bank.numSlots.toNat) ↔ ¬b.slotNr < bank.numSlots := by
    rw [UInt16.lt_iff_toNat_lt, Nat.not_lt]
    exact Int.ofNat_le
  simp only [hid, hnr]
  by_cases h₁ : b.bankId = bank.bankId <;> by_cases h₂ : b.slotNr < bank.numSlots <;>
    simp [h₁, h₂]

theorem tableStep_create (t : Table) (x : SlotMapping) :
    bank.tableStep t (slotmap2CreateMappingReq x) =
      if bank.serves x.bank then tableCreate t x.slots else t := by
  simp only [slotmap2CreateMappingReq, tableStep, check_bankSlot2rspro,
    rspro2bankSlot_bankSlot2rspro, rspro2clientSlot_clientSlot2rspro]
  rfl

theorem tableStep_remove (t : Table) (x : SlotMapping) :
    bank.tableStep t (slotmap2RemoveMappingReq x) =
      if bank.serves x.bank then tableRemove t x.slots else t := by
  simp only [slotmap2RemoveMappingReq, tableStep, check_bankSlot2rspro,
    rspro2bankSlot_bankSlot2rspro, rspro2clientSlot_clientSlot2rspro]
  rfl

/-! ### Runs over the PDUs of the server -/

/-- The table after a sequence of PDUs, starting from the empty one. -/
def tableAfter (bank : BankCfg) (ps : List RsproPDU) : Slotmaps :=
  ps.foldl (fun sm p => (bank.bankdSrvcHandleRx sm p).slotmaps) Slotmaps.empty

/-- No slot is mapped twice, and every mapping is for a slot that this bank has. -/
structure Orderly (bank : BankCfg) (sm : Slotmaps) : Prop where
  bankUnique : sm.UniqueOn SlotMapping.bank
  clientUnique : sm.UniqueOn SlotMapping.client
  own : ∀ m ∈ sm.mappings, ∀ x, sm.heap m = some x →
    x.bank.bankId = bank.bankId ∧ x.bank.slotNr < bank.numSlots

/-- A create request whose slot number is negative, and so passes the check, but whose 16-bit
truncation is no slot of this bank; the client slot is not mapped to another bank slot. -/
def Stray (bank : BankCfg) (sm : Slotmaps) : RsproPDU → Prop
  | .createMappingReq client b =>
      b.bankId = (bank.bankId.toNat : ℤ) ∧ b.slotNr < 0 ∧
        bank.numSlots ≤ (rspro2bankSlot b).slotNr ∧
        ∀ m ∈ sm.mappings, ∀ x, sm.heap m = some x →
          x.client = rspro2clientSlot client → x.bank = rspro2bankSlot b
  | _ => False

theorem serves_iff {b : BankSlot} :
    bank.serves b = true ↔ b.bankId = bank.bankId ∧ b.slotNr < bank.numSlots := by
  unfold serves
  rw [Bool.and_eq_true, decide_eq_true_eq, decide_eq_true_eq]

theorem check_eq_ok {b : BankSlotT} :
    bank.check b = .ok ↔
      b.bankId = (bank.bankId.toNat : ℤ) ∧ b.slotNr < (bank.numSlots.toNat : ℤ) := by
  unfold check
  split_ifs with h₁ h₂
  · simp only [false_iff]
    exact fun h => h₁ h.1
  · simp only [false_iff]
    exact fun h => absurd h.2 (Int.not_lt.mpr h₂)
  · exact ⟨fun _ => ⟨not_not.mp h₁, Int.not_le.mp h₂⟩, fun _ => rfl⟩

theorem serves_of_check {b : BankSlotT} (h : bank.check b = .ok) (hn : 0 ≤ b.slotNr) :
    bank.serves (rspro2bankSlot b) = true := by
  obtain ⟨hid, hlt⟩ := check_eq_ok.mp h
  have hs := bank.numSlots.toNat_lt
  refine serves_iff.mpr ⟨?_, ?_⟩
  · show UInt16.ofInt b.bankId = _
    rw [hid, ofInt_toNat]
  · show UInt16.ofInt b.slotNr < _
    rw [UInt16.ofInt, UInt16.lt_iff_toNat_lt, UInt16.toNat_ofNat']
    omega

theorem wf_tableAfter (ps : List RsproPDU) : (bank.tableAfter ps).Wf := by
  induction ps using List.reverseRecOn with
  | nil => exact Slotmaps.wf_empty
  | append_singleton ps p ih =>
      rw [tableAfter, List.foldl_append]
      exact (table_bankdSrvcHandleRx bank ih p).1

/-- In a well-formed table only the slots of the bank are left to check. -/
theorem orderly_iff_serves (h : sm.Wf) :
    bank.Orderly sm ↔ ∀ e ∈ sm.table, bank.serves e.1 = true := by
  constructor
  · intro ho e he
    obtain ⟨m, hm, x, hx, rfl⟩ := Slotmaps.mem_table.mp he
    exact serves_iff.mpr (ho.own m hm x hx)
  · intro ho
    refine ⟨h.bank, h.client, fun m hm x hx => ?_⟩
    exact serves_iff.mp (ho x.slots (Slotmaps.mem_table.mpr ⟨m, hm, x, hx, rfl⟩))

theorem mem_tableCreate {t : Table} {e d : BankSlot × ClientSlot} (h : d ∈ tableCreate t e) :
    d ∈ t ∨ d = e ∧ ∀ f ∈ t, f.2 = e.2 → f.1 = e.1 := by
  unfold tableCreate at h
  split_ifs at h with h₁ h₂
  · exact .inl h
  · exact .inl (List.mem_of_mem_filter h)
  · rcases List.mem_append.mp h with h | h
    · exact .inl (List.mem_of_mem_filter h)
    · refine .inr ⟨List.mem_singleton.mp h, fun f hf hc => ?_⟩
      by_contra hb
      exact h₂ ⟨f, hf, hb, hc⟩

/-- A pair is in the table after its creation unless its client slot is taken by another. -/
theorem mem_tableCreate_self {t : Table} {e : BankSlot × ClientSlot}
    (h : ∀ d ∈ t, d.2 = e.2 → d.1 = e.1) : e ∈ tableCreate t e := by
  unfold tableCreate
  split_ifs with h₁ h₂
  · exact h₁
  · obtain ⟨d, hd, hb, hc⟩ := h₂
    exact absurd (h d hd hc) hb
  · exact List.mem_append_right _ (List.mem_singleton.mpr rfl)

theorem stray_iff {client : ClientSlotT} {b : BankSlotT} :
    bank.Stray sm (.createMappingReq client b) ↔
      bank.check b = .ok ∧ bank.serves (rspro2bankSlot b) = false ∧
        ∀ e ∈ sm.table, e.2 = rspro2clientSlot client → e.1 = rspro2bankSlot b := by
  have hfree : (∀ e ∈ sm.table, e.2 = rspro2clientSlot client → e.1 = rspro2bankSlot b) ↔
      ∀ m ∈ sm.mappings, ∀ x, sm.heap m = some x →
        x.client = rspro2clientSlot client → x.bank = rspro2bankSlot b := by
    constructor
    · exact fun h m hm x hx => h x.slots (Slotmaps.mem_table.mpr ⟨m, hm, x, hx, rfl⟩)
    · rintro h e he
      obtain ⟨m, hm, x, hx, rfl⟩ := Slotmaps.mem_table.mp he
      exact h m hm x hx
  rw [hfree]
  constructor
  · rintro ⟨hid, hneg, hge, hcl⟩
    refine ⟨check_eq_ok.mpr ⟨hid, by omega⟩, ?_, hcl⟩
    rw [Bool.eq_false_iff, Ne, serves_iff]
    exact fun h => UInt16.not_lt.mpr hge h.2
  · rintro ⟨hok, hs, hcl⟩
    obtain ⟨hid, _⟩ := check_eq_ok.mp hok
    have hneg : b.slotNr < 0 := by
      by_contra hn
      rw [serves_of_check hok (by omega)] at hs
      cases hs
    refine ⟨hid, hneg, ?_, hcl⟩
    rw [← UInt16.not_lt]
    intro hlt
    have hown : (rspro2bankSlot b).bankId = bank.bankId := by
      show UInt16.ofInt b.bankId = _
      rw [hid, ofInt_toNat]
    rw [serves_iff.mpr ⟨hown, hlt⟩] at hs
    cases hs

theorem orderly_step (h : sm.Wf) (ho : bank.Orderly sm) (p : RsproPDU) :
    bank.Orderly (bank.bankdSrvcHandleRx sm p).slotmaps ↔ ¬bank.Stray sm p := by
  obtain ⟨hw, ht⟩ := table_bankdSrvcHandleRx bank h p
  rw [orderly_iff_serves h] at ho
  rw [orderly_iff_serves hw, ht]
  have hkeep : ∀ t : Table, (∀ e ∈ t, e ∈ sm.table) → ¬False →
      ∀ e ∈ t, bank.serves e.1 = true := fun t hsub _ e he => ho e (hsub e he)
  cases p with
  | createMappingReq client b =>
      rw [stray_iff]
      simp only [tableStep]
      split_ifs with hok
      · constructor
        · rintro hall ⟨_, hs, hcl⟩
          rw [hall _ (mem_tableCreate_self hcl)] at hs
          cases hs
        · intro hst e he
          rcases mem_tableCreate he with he | ⟨rfl, hcl⟩
          · exact ho e he
          · by_contra hs
            exact hst ⟨hok, Bool.eq_false_iff.mpr hs, hcl⟩
      · exact ⟨fun _ hst => hok hst.1, fun _ => ho⟩
  | removeMappingReq client b =>
      refine ⟨fun _ hst => hst, hkeep _ fun e he => ?_⟩
      simp only [tableStep] at he
      split_ifs at he
      · exact List.mem_of_mem_filter he
      · exact he
  | resetStateReq => exact ⟨fun _ hst => hst, hkeep _ fun e he => absurd he List.not_mem_nil⟩
  | _ => exact ⟨fun _ hst => hst, hkeep _ fun e he => he⟩

/-- **The table stays in order in a run exactly when no request of the run is stray.** -/
theorem orderly_iff_not_stray (bank : BankCfg) (ps : List RsproPDU) :
    (∀ qs, qs <+: ps → bank.Orderly (bank.tableAfter qs)) ↔
      ∀ qs p, qs ++ [p] <+: ps → ¬bank.Stray (bank.tableAfter qs) p := by
  have hsnoc : ∀ (qs : List RsproPDU) (p : RsproPDU), bank.tableAfter (qs ++ [p]) =
      (bank.bankdSrvcHandleRx (bank.tableAfter qs) p).slotmaps := by
    intro qs p
    rw [tableAfter, List.foldl_append]
    rfl
  constructor
  · intro h qs p hp
    have hq := h qs ((List.prefix_append qs [p]).trans hp)
    exact (orderly_step (wf_tableAfter qs) hq p).mp (hsnoc qs p ▸ h _ hp)
  · intro h qs
    induction qs using List.reverseRecOn with
    | nil =>
        intro _
        rw [orderly_iff_serves (wf_tableAfter [])]
        exact fun e he => absurd he List.not_mem_nil
    | append_singleton qs p ih =>
        intro hp
        rw [hsnoc]
        exact (orderly_step (wf_tableAfter qs)
          (ih ((List.prefix_append qs [p]).trans hp)) p).mpr (h qs p hp)

/-- A bank of eight slots stores a mapping of slot 65535 for the slot number -1. -/
theorem negative_slot_stored :
    ¬(BankCfg.mk 1 8).Orderly
      ((BankCfg.mk 1 8).tableAfter [.createMappingReq ⟨5, 0⟩ ⟨1, -1⟩]) := by
  intro h
  have hx := h.own 0 (by decide) ⟨⟨1, 65535⟩, ⟨5, 0⟩, .new⟩ (by decide)
  exact absurd hx.2 (by decide)

end BankCfg

end Remsim
