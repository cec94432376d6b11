import Remsim.Bankd
import Remsim.Listing

/-! # The book of a bank and the table of its bankd

The bankd learns of a mapping by the requests on its control connection and by nothing else, so its
table, once all requests on the way are handled, is a function of the requests sent.  `Agrees` is
the relation between the book of the server and that table: it holds the slot pairs, as far as the
bankd accepts them, of the mappings that were requested and whose removal was not (`Made`).

`Agrees.apply` is the step lemma: the requests of an event take a table that agrees with the book
before to one that agrees with the book after.  Two things can break it.  A request to create a
mapping may meet a mapping at the bankd that the server has dropped from its list while its create
request was unacknowledged (`Orphan`); and what the bankd holds when it connects is not known to the
server, which is why `agrees_connect` has a condition on it. -/

namespace Remsim

/-- The pairs have a slot in common. -/
def Clash (e e' : BankSlot × ClientSlot) : Prop := e.1 = e'.1 ∨ e.2 = e'.2

instance (e e' : BankSlot × ClientSlot) : Decidable (Clash e e') := by
  unfold Clash; infer_instance

theorem Clash.symm {e e' : BankSlot × ClientSlot} (h : Clash e e') : Clash e' e :=
  h.imp Eq.symm Eq.symm

/-! ### Requests at the bankd -/

theorem mem_tableCreate {t : Table} {e d : BankSlot × ClientSlot}
    (ht : ∀ d ∈ t, ∀ d' ∈ t, d.1 = d'.1 → d = d') (he : ∀ d ∈ t, d.2 = e.2 → d.1 = e.1) :
    d ∈ tableCreate t e ↔ (d ∈ t ∧ d.1 ≠ e.1) ∨ d = e := by
  unfold tableCreate
  by_cases hin : e ∈ t
  · rw [if_pos hin]
    constructor
    · intro hd
      by_cases h : d.1 = e.1
      · exact .inr (ht d hd e hin h)
      · exact .inl ⟨hd, h⟩
    · rintro (⟨hd, _⟩ | rfl)
      · exact hd
      · exact hin
  · have hno : ¬∃ d ∈ t, d.1 ≠ e.1 ∧ d.2 = e.2 := fun ⟨d, hd, h₁, h₂⟩ => h₁ (he d hd h₂)
    rw [if_neg hin, if_neg hno]
    simp

/-- Create requests for pairs without a common slot, when a client slot of the table is asked for
with the same bank slot only. -/
theorem mem_foldl_tableCreate :
    ∀ (es : Table) (t : Table) (d : BankSlot × ClientSlot), es.Pairwise (¬Clash · ·) →
      (∀ d ∈ t, ∀ d' ∈ t, d.1 = d'.1 → d = d') → (∀ d ∈ t, ∀ e ∈ es, d.2 = e.2 → d.1 = e.1) →
      (d ∈ es.foldl tableCreate t ↔ (d ∈ t ∧ ∀ e ∈ es, d.1 ≠ e.1) ∨ d ∈ es)
  | [], t, d, _, _, _ => by simp
  | e :: es, t, d, hes, ht, hc => by
      obtain ⟨hlater, hes⟩ := List.pairwise_cons.mp hes
      have hin : ∀ d, d ∈ tableCreate t e ↔ (d ∈ t ∧ d.1 ≠ e.1) ∨ d = e := fun d =>
        mem_tableCreate ht fun d hd => hc d hd e List.mem_cons_self
      have ht' : ∀ d ∈ tableCreate t e, ∀ d' ∈ tableCreate t e, d.1 = d'.1 → d = d' := by
        intro d hd d' hd' h
        rcases (hin d).mp hd with ⟨hd, hne⟩ | rfl <;>
          rcases (hin d').mp hd' with ⟨hd', hne'⟩ | rfl
        · exact ht d hd d' hd' h
        · exact absurd h hne
        · exact absurd h.symm hne'
        · rfl
      have hc' : ∀ d ∈ tableCreate t e, ∀ e' ∈ es, d.2 = e'.2 → d.1 = e'.1 := by
        intro d hd e' he' h
        rcases (hin d).mp hd with ⟨hd, _⟩ | rfl
        · exact hc d hd e' (List.mem_cons_of_mem _ he') h
        · exact absurd (.inr h) (hlater e' he')
      rw [List.foldl_cons, mem_foldl_tableCreate es _ d hes ht' hc', hin, List.forall_mem_cons,
        List.mem_cons]
      constructor
      · rintro (⟨⟨hd, hne⟩ | rfl, hall⟩ | hd)
        · exact .inl ⟨hd, hne, hall⟩
        · exact .inr (.inl rfl)
        · exact .inr (.inr hd)
      · rintro (⟨hd, hne, hall⟩ | rfl | hd)
        · exact .inl ⟨.inl ⟨hd, hne⟩, hall⟩
        · exact .inl ⟨.inr rfl, fun e' he' h => hlater e' he' (.inl h)⟩
        · exact .inr hd

theorem mem_foldl_tableRemove :
    ∀ (es : Table) (t : Table) (d : BankSlot × ClientSlot),
      d ∈ es.foldl tableRemove t ↔ d ∈ t ∧ d ∉ es
  | [], t, d => by simp
  | e :: es, t, d => by
      rw [List.foldl_cons, mem_foldl_tableRemove es, tableRemove, List.mem_filter, List.mem_cons]
      simp only [decide_eq_true_eq]
      tauto

theorem BankCfg.tableStep_of_not_request {bank : BankCfg} {tx : Tx} (t : Table)
    (h : tx.isRequest = false) : bank.tableStep t tx.pdu = t := by
  obtain ⟨pdu, about⟩ := tx
  cases pdu with
  | createMappingReq => cases h
  | removeMappingReq => cases h
  | resetStateReq => cases h
  | _ => rfl

theorem BankCfg.foldl_tableStep_filter {bank : BankCfg} :
    ∀ (txs : List Tx) (t : Table), (txs.map Tx.pdu).foldl bank.tableStep t =
      ((txs.filter Tx.isRequest).map Tx.pdu).foldl bank.tableStep t
  | [], _ => rfl
  | tx :: txs, t => by
      rw [List.filter_cons]
      split_ifs with h
      · exact foldl_tableStep_filter txs _
      · rw [List.map_cons, List.foldl_cons, tableStep_of_not_request t (by simpa using h)]
        exact foldl_tableStep_filter txs t

namespace Book

variable {bank : BankCfg} {b b' : Book} {c : ConnId} {t : Table}

/-- The slot pairs of mappings, as far as the bankd accepts them. -/
def accepted (bank : BankCfg) (b : Book) (ms : List MapId) : Table :=
  (ms.filterMap b.slotsOf).filter fun e => bank.serves e.1

theorem mem_accepted {ms : List MapId} {e : BankSlot × ClientSlot} :
    e ∈ b.accepted bank ms ↔ bank.serves e.1 = true ∧ ∃ m ∈ ms, b.slotsOf m = some e := by
  rw [accepted, List.mem_filter, List.mem_filterMap, and_comm]

theorem foldl_tx {req : MapId → Option Tx} {act : Table → BankSlot × ClientSlot → Table}
    (hreq : ∀ m, req m = none ↔ b.slotsOf m = none)
    (hact : ∀ m tx t, req m = some tx → ∃ e, b.slotsOf m = some e ∧
      bank.tableStep t tx.pdu = if bank.serves e.1 then act t e else t) :
    ∀ (ms : List MapId) (t : Table), ((ms.filterMap req).map Tx.pdu).foldl bank.tableStep t =
      (b.accepted bank ms).foldl act t
  | [], _ => rfl
  | m :: ms, t => by
      have ih := foldl_tx hreq hact ms
      unfold accepted at ih ⊢
      cases hx : req m with
      | none =>
          rw [List.filterMap_cons_none hx, List.filterMap_cons_none ((hreq m).mp hx)]
          exact ih t
      | some tx =>
          obtain ⟨e, he, hstep⟩ := hact m tx t hx
          rw [List.filterMap_cons_some hx, List.filterMap_cons_some he, List.map_cons,
            List.foldl_cons, hstep, List.filter_cons]
          split_ifs
          · exact ih _
          · exact ih _

theorem foldl_createTx (ms : List MapId) (t : Table) :
    ((ms.filterMap b.createTx).map Tx.pdu).foldl bank.tableStep t =
      (b.accepted bank ms).foldl tableCreate t := by
  refine foldl_tx (fun m => ?_) (fun m tx t h => ?_) ms t
  · simp only [createTx, slotsOf, Option.map_eq_none_iff]
  · obtain ⟨x, hx, rfl⟩ := Option.map_eq_some_iff.mp h
    exact ⟨x.slots, by rw [slotsOf, hx]; rfl, BankCfg.tableStep_create t x⟩

theorem foldl_removeTx (ms : List MapId) (t : Table) :
    ((ms.filterMap b.removeTx).map Tx.pdu).foldl bank.tableStep t =
      (b.accepted bank ms).foldl tableRemove t := by
  refine foldl_tx (fun m => ?_) (fun m tx t h => ?_) ms t
  · simp only [removeTx, slotsOf, Option.map_eq_none_iff]
  · obtain ⟨x, hx, rfl⟩ := Option.map_eq_some_iff.mp h
    exact ⟨x.slots, by rw [slotsOf, hx]; rfl, BankCfg.tableStep_remove t x⟩

theorem pairwise_accepted {ms : List MapId} (hnd : ms.Nodup)
    (hms : ∀ m ∈ ms, ∀ m' ∈ ms, ∀ e e', b.slotsOf m = some e → b.slotsOf m' = some e' →
      Clash e e' → m = m') : (b.accepted bank ms).Pairwise (¬Clash · ·) := by
  refine List.Pairwise.filter _ (List.pairwise_filterMap.mpr ?_)
  refine hnd.imp_of_mem ?_
  intro m m' hm hm' hne e he e' he' hcl
  exact hne (hms m hm m' hm' e e' he he' hcl)

/-! ### The relation -/

/-- The create request for the mapping was sent, and the remove request was not. -/
def Made (b : Book) (c : ConnId) (m : MapId) : Prop := b.Asked c m ∨ m ∈ b.maps c .mapsDelreq

/-- The table agrees with the book as to the bank connection `c`. -/
structure Agrees (bank : BankCfg) (b : Book) (c : ConnId) (t : Table) : Prop where
  /-- The table holds the accepted pairs of the mappings that were made. -/
  table : ∀ e, e ∈ t ↔ bank.serves e.1 = true ∧ ∃ m, b.Made c m ∧ b.slotsOf m = some e
  /-- These have no slots in common, -/
  apart : ∀ m m' e e', b.Made c m → b.Made c m' → b.slotsOf m = some e → b.slotsOf m' = some e' →
    Clash e e' → m = m'
  /-- nor do queued mappings with those to stay. -/
  free : ∀ m m' e e', m ∈ b.maps c .mapsNew → b.Asked c m' → b.slotsOf m = some e →
    b.slotsOf m' = some e' → ¬Clash e e'

/-- The rule for operations that make no mapping and withdraw none. -/
theorem Agrees.of_made (h : b.Agrees bank c t) (hmade : ∀ m, b'.Made c m ↔ b.Made c m)
    (hasked : ∀ m, b'.Asked c m → b.Asked c m)
    (hslots : ∀ l, ∀ m ∈ b'.maps c l, b'.slotsOf m = b.slotsOf m)
    (hnew : ∀ m ∈ b'.maps c .mapsNew, m ∈ b.maps c .mapsNew) : b'.Agrees bank c t := by
  have hs : ∀ m, b'.Made c m → b'.slotsOf m = b.slotsOf m := by
    rintro m ((hm | hm) | hm)
    · exact hslots _ m hm
    · exact hslots _ m hm
    · exact hslots _ m hm
  refine ⟨fun e => ?_, ?_, ?_⟩
  · rw [h.table e]
    refine and_congr_right fun _ => ⟨?_, ?_⟩
    · rintro ⟨m, hm, he⟩
      have hm' := (hmade m).mpr hm
      exact ⟨m, hm', (hs m hm').trans he⟩
    · rintro ⟨m, hm, he⟩
      exact ⟨m, (hmade m).mp hm, (hs m hm).symm.trans he⟩
  · intro m m' e e' hm hm' he he'
    rw [hs m hm] at he
    rw [hs m' hm'] at he'
    exact h.apart m m' e e' ((hmade m).mp hm) ((hmade m').mp hm') he he'
  · intro m m' e e' hm hm' he he'
    rw [hslots _ m hm] at he
    rw [hs m' (.inl hm')] at he'
    exact h.free m m' e e' (hnew m hm) (hasked m' hm') he he'

theorem Agrees.frame (h : b.Agrees bank c t) (hk : ∀ l, Keeps b b' c l) : b'.Agrees bank c t := by
  have hmaps : ∀ l, b'.maps c l = b.maps c l := fun l => (hk l).1
  refine h.of_made (fun m => ?_) (fun m => ?_) (fun l m hin => ?_) fun m hin => ?_
  · simp only [Made, Asked, hmaps]
  · simp only [Asked, hmaps]
    exact id
  · rw [hmaps] at hin
    exact (hk l).2 m hin
  · rwa [hmaps] at hin

theorem Agrees.bankUnique (h : b.Agrees bank c t) :
    ∀ d ∈ t, ∀ d' ∈ t, d.1 = d'.1 → d = d' := by
  intro d hd d' hd' e
  obtain ⟨_, m, hm, hs⟩ := (h.table d).mp hd
  obtain ⟨_, m', hm', hs'⟩ := (h.table d').mp hd'
  obtain rfl := h.apart m m' d d' hm hm' hs hs' (.inl e)
  exact Option.some.inj (hs.symm.trans hs')

theorem Inv.mappings_apart (h : b.Inv) {m m' : MapId} {e e' : BankSlot × ClientSlot}
    (hm : m ∈ b.mappings) (hm' : m' ∈ b.mappings) (he : b.slotsOf m = some e)
    (he' : b.slotsOf m' = some e') (hcl : Clash e e') : m = m' := by
  obtain ⟨x, hx, rfl⟩ := Option.map_eq_some_iff.mp he
  obtain ⟨x', hx', rfl⟩ := Option.map_eq_some_iff.mp he'
  rcases hcl with hcl | hcl
  · exact h.wf.bank m hm m' hm' x x' hx hx' hcl
  · exact h.wf.client m hm m' hm' x x' hx hx' hcl

/-! ### Pushing -/

theorem Agrees.push_create (h : b.Agrees bank c t) (hb : b.Inv) (hl : b.Listing)
    (hdel : b.maps c .mapsDelreq = []) :
    (b.push c).Agrees bank c (((b.pushTxs c).map Tx.pdu).foldl bank.tableStep t) := by
  have hmaps := hb.push_maps c c
  simp only [if_true] at hmaps
  have hmade : ∀ m, (b.push c).Made c m ↔ b.Asked c m ∨ m ∈ b.maps c .mapsNew := by
    intro m
    simp only [Made, Asked, hmaps, List.mem_append, List.not_mem_nil, or_false]
    tauto
  have hold : ∀ m, b.Made c m ↔ b.Asked c m := by
    intro m
    simp only [Made, hdel, List.not_mem_nil, or_false]
  have htx : ((b.pushTxs c).map Tx.pdu).foldl bank.tableStep t =
      (b.accepted bank (b.maps c .mapsNew)).foldl tableCreate t := by
    rw [pushTxs, hdel, List.filterMap_nil, List.append_nil, foldl_createTx]
  have hmeet : ∀ d ∈ t, ∀ e ∈ b.accepted bank (b.maps c .mapsNew), ¬Clash e d := by
    intro d hd e he hcl
    obtain ⟨_, m, hm, hs⟩ := (h.table d).mp hd
    obtain ⟨_, m', hm', hs'⟩ := mem_accepted.mp he
    exact h.free m' m e d hm' ((hold m).mp hm) hs' hs hcl
  have hpair : (b.accepted bank (b.maps c .mapsNew)).Pairwise (¬Clash · ·) :=
    pairwise_accepted (hb.nodup c _) fun m hm m' hm' e e' he he' =>
      hb.mappings_apart (hl.new c m hm) (hl.new c m' hm') he he'
  refine ⟨fun d => ?_, fun m m' e e' hm hm' he he' hcl => ?_, ?_⟩
  · rw [htx, mem_foldl_tableCreate _ _ _ hpair h.bankUnique
      fun d hd e he hde => absurd (.inr hde.symm) (hmeet d hd e he), mem_accepted, h.table d]
    simp only [slotsOf_push, hmade, hold]
    constructor
    · rintro (⟨⟨hs, m, hm, he⟩, _⟩ | ⟨hs, m, hm, he⟩)
      · exact ⟨hs, m, .inl hm, he⟩
      · exact ⟨hs, m, .inr hm, he⟩
    · rintro ⟨hs, m, hm | hm, he⟩
      · refine .inl ⟨⟨hs, m, hm, he⟩, fun e he' hde => ?_⟩
        have hd : d ∈ t := (h.table d).mpr ⟨hs, m, (hold m).mpr hm, he⟩
        exact hmeet d hd e he' (.inl hde.symm)
      · exact .inr ⟨hs, m, hm, he⟩
  · rw [slotsOf_push] at he he'
    rcases (hmade m).mp hm with hm | hm <;> rcases (hmade m').mp hm' with hm' | hm'
    · exact h.apart m m' e e' ((hold m).mpr hm) ((hold m').mpr hm') he he' hcl
    · exact absurd hcl.symm (h.free m' m e' e hm' hm he' he)
    · exact absurd hcl (h.free m m' e e' hm hm' he he')
    · exact hb.mappings_apart (hl.new c m hm) (hl.new c m' hm') he he' hcl
  · rw [hmaps]
    rintro m m' e e' ⟨⟩

theorem Agrees.push_remove (h : b.Agrees bank c t) (hb : b.Inv)
    (hnew : b.maps c .mapsNew = []) :
    (b.push c).Agrees bank c (((b.pushTxs c).map Tx.pdu).foldl bank.tableStep t) := by
  have hmaps := hb.push_maps c c
  simp only [if_true] at hmaps
  have hmade : ∀ m, (b.push c).Made c m ↔ b.Asked c m := by
    intro m
    simp only [Made, Asked, hmaps, hnew, List.append_nil, List.not_mem_nil, or_false]
  have htx : ((b.pushTxs c).map Tx.pdu).foldl bank.tableStep t =
      (b.accepted bank (b.maps c .mapsDelreq)).foldl tableRemove t := by
    rw [pushTxs, hnew, List.filterMap_nil, List.nil_append, foldl_removeTx]
  refine ⟨fun d => ?_, fun m m' e e' hm hm' he he' => ?_, ?_⟩
  · rw [htx, mem_foldl_tableRemove, mem_accepted, h.table d]
    simp only [slotsOf_push, hmade]
    constructor
    · rintro ⟨⟨hs, m, hm | hm, he⟩, hno⟩
      · exact ⟨hs, m, hm, he⟩
      · exact absurd ⟨hs, m, hm, he⟩ hno
    · rintro ⟨hs, m, hm, he⟩
      refine ⟨⟨hs, m, .inl hm, he⟩, ?_⟩
      rintro ⟨_, m', hm', he'⟩
      -- the pair of a mapping to stay is not that of one to be removed
      obtain rfl := h.apart m m' d d (.inl hm) (.inr hm') he he' (.inl rfl)
      rcases hm with hm | hm
      · exact hb.not_mem_other (by decide) m hm hm'
      · exact hb.not_mem_other (by decide) m hm hm'
  · rw [slotsOf_push] at he he'
    exact h.apart m m' e e' (.inl ((hmade m).mp hm)) (.inl ((hmade m').mp hm')) he he'
  · rw [hmaps]
    rintro m m' e e' ⟨⟩

theorem Agrees.push (h : b.Agrees bank c t) (hb : b.Inv) (hl : b.Listing)
    (hone : b.maps c .mapsNew = [] ∨ b.maps c .mapsDelreq = []) :
    (b.push c).Agrees bank c (((b.pushTxs c).map Tx.pdu).foldl bank.tableStep t) :=
  hone.elim (h.push_remove hb) (h.push_create hb hl)

theorem Agrees.pushAll (h : b.Agrees bank c t) (hb : b.Inv) (hl : b.Listing) {cs : List ConnId}
    (hnd : cs.Nodup) (hcs : c ∈ cs → b.maps c .mapsNew = [] ∨ b.maps c .mapsDelreq = []) :
    (b.pushAll cs).Agrees bank c
      (((if c ∈ cs then b.pushTxs c else []).map Tx.pdu).foldl bank.tableStep t) := by
  have hmaps := hb.pushAll_maps cs hnd c
  have hslots : ∀ m, (b.pushAll cs).slotsOf m = b.slotsOf m := fun m => slotsOf_pushAll m cs b
  split_ifs at hmaps ⊢ with hc
  · refine (h.push hb hl (hcs hc)).frame fun l => ⟨hmaps l, fun m _ => ?_⟩
    rw [hslots, slotsOf_push]
  · exact h.frame fun l => ⟨hmaps l, fun m _ => hslots m⟩

/-! ### Deletion requests -/

theorem slotsOf_mark_of_mem (hb : b.Inv) {conn : UInt16 → Option ConnId}
    (hconn : ∀ i k, conn i = some k ↔ b.bankOf k = some i) {m a : MapId} {l : BankList}
    (ha : a ∈ (b.mark conn m).maps c l) : (b.mark conn m).slotsOf a = b.slotsOf a := by
  obtain ⟨x, hx⟩ := (hb.mark hconn m).heap_of_mem ha
  have hs : (b.mark conn m).slotsOf a = some x.slots := by rw [slotsOf, hx]; rfl
  rw [hs, Ledger.slotsOf_mark hs]

/-- A deleted mapping that was active stays made until its removal is requested. -/
theorem Agrees.mark (h : b.Agrees bank c t) (hb : b.Inv) {conn : UInt16 → Option ConnId}
    (hconn : ∀ i k, conn i = some k ↔ b.bankOf k = some i) (m : MapId) :
    (b.mark conn m).Agrees bank c t := by
  cases hx : b.heap m with
  | none => rw [mark_none hx]; exact h
  | some x =>
      have hmem : ∀ {a l}, a ∈ (b.mark conn m).maps c l ↔
          (a ∈ b.maps c l ∧ (a = m → x.state ≠ .new ∧ x.state ≠ .active)) ∨
            (a = m ∧ l = .mapsDelreq ∧ m ∈ b.maps c .mapsActive) := hb.mem_mark_maps hconn hx
      refine h.of_made (fun a => ⟨?_, ?_⟩) (fun a ha => (hb.asked_mark hconn hx ha).1)
        (fun l a ha => slotsOf_mark_of_mem hb hconn ha) fun a ha => ?_
      · rintro (ha | ha)
        · exact .inl (hb.asked_mark hconn hx ha).1
        · rcases hmem.mp ha with ⟨ha, _⟩ | ⟨rfl, _, ha⟩
          · exact .inr ha
          · exact .inl (.inr ha)
      · rintro ((ha | ha) | ha)
        · exact .inl (.inl (hb.mem_mark_of_mem hconn ha (by decide) (by decide)))
        · by_cases e : a = m
          · exact .inr (hmem.mpr (.inr ⟨e, rfl, e ▸ ha⟩))
          · exact .inl (.inr (hmem.mpr (.inl ⟨ha, fun h => absurd h e⟩)))
        · exact .inr (hb.mem_mark_of_mem hconn ha (by decide) (by decide))
      · rcases hmem.mp ha with ⟨ha, _⟩ | ⟨_, hl, _⟩
        · exact ha
        · cases hl

theorem Agrees.markAll {conn : UInt16 → Option ConnId} :
    ∀ (ms : List MapId) {b : Book}, b.Agrees bank c t → b.Inv →
      (∀ i k, conn i = some k ↔ b.bankOf k = some i) → (b.markAll conn ms).Agrees bank c t
  | [], _, h, _, _ => h
  | m :: ms, b, h, hb, hconn =>
      Agrees.markAll ms (h.mark hb hconn m) (hb.mark hconn m)
        fun i k => by rw [mark_bankOf]; exact hconn i k

/-! ### New mappings -/

/-- A new mapping of the bank must not meet an orphan: a mapping the bankd was asked to create and
that is no longer on the global list. -/
theorem Agrees.post (h : b.Agrees bank c t) (hb : b.Inv) (bs : BankSlot) (cs : ClientSlot)
    (dst : Option ConnId) (horph : dst = some c → ∀ m e, b.Asked c m → m ∉ b.mappings →
      b.slotsOf m = some e → ¬Clash (bs, cs) e) :
    (b.post bs cs dst).Agrees bank c t := by
  cases ha : b.slotmapAdd bs cs with
  | none => rw [post_of_none ha]; exact h
  | some r =>
      have hmem : ∀ {m l}, m ∈ (b.post bs cs dst).maps c l ↔
          m ∈ b.maps c l ∨ (m = b.next ∧ dst = some c ∧ l = .mapsNew) := hb.mem_post_maps ha dst
      have hslots : ∀ {l m}, m ∈ b.maps c l → (b.post bs cs dst).slotsOf m = b.slotsOf m := by
        intro l m hm
        rw [hb.slotsOf_post ha, if_neg (hb.next_not_mem hm)]
      have hasked : ∀ m, (b.post bs cs dst).Asked c m ↔ b.Asked c m := by
        intro m
        simp only [Asked, hmem, reduceCtorEq, and_false, or_false]
      have hmade : ∀ m, (b.post bs cs dst).Made c m ↔ b.Made c m := by
        intro m
        simp only [Made, hasked, hmem, reduceCtorEq, and_false, or_false]
      have hslots' : ∀ m, b.Made c m → (b.post bs cs dst).slotsOf m = b.slotsOf m := by
        rintro m ((hm | hm) | hm)
        · exact hslots hm
        · exact hslots hm
        · exact hslots hm
      refine ⟨fun e => ?_, fun m m' e e' hm hm' he he' => ?_, fun m m' e e' hm hm' he he' => ?_⟩
      · rw [h.table e]
        refine and_congr_right fun _ => ⟨?_, ?_⟩
        · rintro ⟨m, hm, he⟩
          exact ⟨m, (hmade m).mpr hm, (hslots' m hm).trans he⟩
        · rintro ⟨m, hm, he⟩
          have hm' := (hmade m).mp hm
          exact ⟨m, hm', (hslots' m hm').symm.trans he⟩
      · have hm := (hmade m).mp hm
        have hm' := (hmade m').mp hm'
        rw [hslots' m hm] at he
        rw [hslots' m' hm'] at he'
        exact h.apart m m' e e' hm hm' he he'
      · have hm' := (hasked m').mp hm'
        rw [hslots' m' (.inl hm')] at he'
        rcases hmem.mp hm with hm | ⟨rfl, hd, _⟩
        · rw [hslots hm] at he
          exact h.free m m' e e' hm hm' he he'
        · rw [hb.slotsOf_post ha, if_pos rfl] at he
          obtain rfl := Option.some.inj he
          by_cases hg : m' ∈ b.mappings
          · -- `slotmap_add()` has checked the global list
            obtain ⟨x, hx, rfl⟩ := Option.map_eq_some_iff.mp he'
            obtain ⟨h₁, h₂, _⟩ := b.slotmapAdd_eq_some.mp ha
            rintro (hcl | hcl)
            · exact (b.slotmapByBank_none.mp h₁) m' hg x hx hcl.symm
            · exact (b.slotmapByClient_none.mp h₂) m' hg x hx hcl.symm
          · exact horph hd m' e' hm' hg he'

/-! ### Responses -/

theorem Agrees.ack (h : b.Agrees bank c t) (hb : b.Inv) (k : ConnId) :
    (b.ack k).Agrees bank c t := by
  refine h.of_made (fun a => ?_) (fun a => (hb.asked_ack k a).mp) (fun l a _ => slotsOf_ack k a)
    fun a ha => ?_
  · simp only [Made, hb.asked_ack, hb.ack_maps k (by decide : BankList.mapsDelreq ≠ .mapsUnack)
      (by decide)]
  · rwa [hb.ack_maps k (by decide) (by decide)] at ha

theorem Agrees.unmap (h : b.Agrees bank c t) (hb : b.Inv) (k : ConnId) :
    (b.unmap k).Agrees bank c t := by
  rcases hb.unmap_cases k with e | ⟨m, hin, hun, hkeep⟩
  · rw [e]
    exact h
  · have hasked : ∀ a, (b.unmap k).Asked c a ↔ b.Asked c a := by
      intro a
      simp only [Asked, hkeep c .mapsUnack (by decide), hkeep c .mapsActive (by decide)]
    refine h.of_made (fun a => ?_) (fun a => (hasked a).mp) (fun l a ha => ?_) fun a ha => ?_
    · simp only [Made, hasked, hkeep c .mapsDelreq (by decide)]
    · rw [hun] at ha ⊢
      exact congrArg _ (Slotmaps.slotmapDel_heap_of_ne (mem_free.mp ha).2)
    · rwa [hkeep c _ (by decide)] at ha

/-! ### Connections -/

theorem Agrees.drop_other (h : b.Agrees bank c t) (hb : b.Inv) {k : ConnId} (hne : c ≠ k) :
    (b.drop k).Agrees bank c t :=
  h.frame (hb.keeps_drop hne)

theorem Agrees.connect_other (h : b.Agrees bank c t) (hb : b.Inv) {k : ConnId} {id : UInt16}
    (hk : b.bankOf k = none) (hid : ∀ k, b.bankOf k ≠ some id) (hne : c ≠ k) :
    (b.connect k id).Agrees bank c t :=
  h.frame (hb.keeps_connect hk hid hne)

/-- What the bankd holds is superseded by the mappings of the server that it accepts: every bank
slot it has a pair for is mapped, and no pair has a client slot that the server wants at another
bank slot. -/
structure Superseded (bank : BankCfg) (b : Book) (t : Table) : Prop where
  mapped : ∀ d ∈ t, ∃ e ∈ b.accepted bank b.mappings, e.1 = d.1
  client : ∀ d ∈ t, ∀ e ∈ b.accepted bank b.mappings, d.2 = e.2 → d.1 = e.1

theorem mem_ofBank_iff {id : UInt16} {m : MapId} {e : BankSlot × ClientSlot}
    (he : b.slotsOf m = some e) : m ∈ b.ofBank id ↔ m ∈ b.mappings ∧ e.1.bankId = id := by
  obtain ⟨x, hx, rfl⟩ := Option.map_eq_some_iff.mp he
  rw [mem_ofBank]
  refine and_congr_right fun _ => ⟨?_, fun h => ⟨x, hx, h⟩⟩
  rintro ⟨y, hy, h⟩
  rw [hx] at hy
  rw [Option.some.inj hy]
  exact h

/-- **A bank connects.**  The create requests for all its mappings bring the table of the bankd to
agreement if they supersede what it holds. -/
theorem agrees_connect (hb : b.Inv) (hc : b.bankOf c = none)
    (hid : ∀ k, b.bankOf k ≠ some bank.bankId) (ht : ∀ d ∈ t, ∀ d' ∈ t, d.1 = d'.1 → d = d')
    (hsup : b.Superseded bank t) :
    (b.connect c bank.bankId).Agrees bank c
      ((((b.ofBank bank.bankId).filterMap b.createTx).map Tx.pdu).foldl bank.tableStep t) := by
  have hmaps := hb.connect_maps hc hid c
  simp only [if_true] at hmaps
  have hmade : ∀ m, (b.connect c bank.bankId).Made c m ↔ m ∈ b.ofBank bank.bankId := by
    intro m
    simp [Made, Asked, hmaps]
  have hglob : ∀ m ∈ b.ofBank bank.bankId, m ∈ b.mappings := fun m hm => (mem_ofBank.mp hm).1
  have hof : ∀ {m e}, m ∈ b.mappings → b.slotsOf m = some e → bank.serves e.1 = true →
      m ∈ b.ofBank bank.bankId := by
    intro m e hm he hs
    simp only [BankCfg.serves, Bool.and_eq_true, decide_eq_true_eq] at hs
    exact (mem_ofBank_iff he).mpr ⟨hm, hs.1⟩
  have hapart : ∀ m ∈ b.ofBank bank.bankId, ∀ m' ∈ b.ofBank bank.bankId, ∀ e e',
      b.slotsOf m = some e → b.slotsOf m' = some e' → Clash e e' → m = m' :=
    fun m hm m' hm' e e' => hb.mappings_apart (hglob m hm) (hglob m' hm')
  have hnd : (b.ofBank bank.bankId).Nodup := hb.wf.nodup.filter _
  refine ⟨fun d => ?_, fun m m' e e' hm hm' he he' => ?_, ?_⟩
  · rw [foldl_createTx, mem_foldl_tableCreate _ _ _ (pairwise_accepted hnd hapart) ht,
      mem_accepted]
    · simp only [hmade, slotsOf_connect]
      constructor
      · rintro (⟨hd, hno⟩ | hd)
        · obtain ⟨e, he, hde⟩ := hsup.mapped d hd
          obtain ⟨hs, m, hm, he⟩ := mem_accepted.mp he
          exact absurd hde.symm (hno e (mem_accepted.mpr ⟨hs, m, hof hm he hs, he⟩))
        · exact hd
      · exact .inr
    · intro d hd e he
      obtain ⟨hs, m, hm, he⟩ := mem_accepted.mp he
      exact hsup.client d hd e (mem_accepted.mpr ⟨hs, m, hglob m hm, he⟩)
  · rw [slotsOf_connect] at he he'
    exact hapart m ((hmade m).mp hm) m' ((hmade m').mp hm') e e' he he'
  · rw [hmaps]
    rintro m m' e e' ⟨⟩

end Book

/-! ### Events -/

namespace Ledger

variable {bank : BankCfg} {g : Ledger} {ev : Event} {c : ConnId} {t : Table}

/-- The slots of the event's new mapping meet no orphan of the connection. -/
def PostClear (g : Ledger) (c : ConnId) : Event → Prop
  | .post bs cs dst => dst = some c → ∀ m e, g.Asked c m → m ∉ g.mappings →
      g.slotsOf m = some e → ¬Clash (bs, cs) e
  | _ => True

/-- **An event keeps the table in agreement** through the requests it sends, if its new mapping
meets no orphan.  A bank may connect or be lost, but not the one in question, and requests are sent
by the eventfd callback. -/
theorem agrees_apply (h : g.Agrees bank c t) (hb : g.toBook.Inv) (hl : g.Listing) (hv : g.Valid ev)
    (hpost : g.PostClear c ev) (hpush : ∀ k, ev ≠ .push k) (hcon : ∀ id, ev ≠ .connect c id)
    (hdrop : ev ≠ .drop c) :
    (g.apply ev).Agrees bank c (((g.requests ev c).map Tx.pdu).foldl bank.tableStep t) := by
  cases ev with
  | quiet => exact h
  | post bs cs dst => exact Book.Agrees.post h hb bs cs dst hpost
  | marks conn ms => exact Book.Agrees.markAll ms h hb hv.1
  | eventFd cs => exact Book.Agrees.pushAll h hb hl hv.2.1 fun hc => ((hv.2.2 c).mp hc).2
  | push k => exact absurd rfl (hpush k)
  | connect k id =>
      have hne : c ≠ k := fun e => hcon id (e ▸ rfl)
      show (g.toBook.connect k id).Agrees bank c
        (((if c = k then _ else []).map Tx.pdu).foldl bank.tableStep t)
      rw [if_neg hne]
      exact Book.Agrees.connect_other h hb hv.1 hv.2 hne
  | drop k => exact Book.Agrees.drop_other h hb fun e => hdrop (e ▸ rfl)
  | kill k => exact h
  | ack k => exact Book.Agrees.ack h hb k
  | unmap k => exact Book.Agrees.unmap h hb k

theorem Tidy.postClear (h : g.Tidy c) (ev : Event) : g.PostClear c ev := by
  cases ev with
  | post bs cs dst => exact fun _ m e hm hg => absurd (h.kept m hm) hg
  | _ => trivial

end Ledger

end Remsim
