import Remsim.Bankd

/-! # Requests of the server as transactions (`bankd_main.c`)

A create or remove request of the server is meant to be carried out in full, or to be refused with
the table as it was.  `Atomic` says so for one request.  A create request is carried out in two
steps: a mapping of the bank slot with another client slot is removed before `slotmap_add()` looks
at the client slot.  `Displaces` is the case in which the first step is taken and the second
refused; it is the only one in which a request is not atomic. -/

namespace Remsim

namespace BankCfg

variable {bank : BankCfg} {sm : Slotmaps}

/-- The mappings whose slots satisfy `p` keep their place in the list and their content. -/
def Untouched (p : BankSlot × ClientSlot → Prop) (sm sm' : Slotmaps) : Prop :=
  ∀ m ∈ sm.mappings, ∀ x, sm.heap m = some x → p x.slots →
    m ∈ sm'.mappings ∧ sm'.heap m = some x

/-- The creation of the mapping `e`, answered by `r`, took the table from `sm` to `sm'`. -/
structure CreateAtomic (sm sm' : Slotmaps) (e : BankSlot × ClientSlot) (r : ResultCode) :
    Prop where
  failed : r ≠ .ok → sm' = sm
  done : r = .ok → sm'.table.Perm (sm.table.filter (fun d => d.1 ≠ e.1) ++ [e])
  others : Untouched (fun d => d.1 ≠ e.1) sm sm'

/-- The removal of the mapping `e`, answered by `r`, took the table from `sm` to `sm'`;
`valid` says whether the request names a slot of this bank. -/
structure RemoveAtomic (valid : Prop) (sm sm' : Slotmaps) (e : BankSlot × ClientSlot)
    (r : ResultCode) : Prop where
  failed : r ≠ .ok → sm' = sm
  done : r = .ok → sm'.table = sm.table.filter (· ≠ e)
  answer : r = .ok ↔ valid ∧ e ∈ sm.table
  others : Untouched (· ≠ e) sm sm'

/-- The request is answered, and either carried out in full or refused without a trace. -/
def Atomic (bank : BankCfg) (sm : Slotmaps) : RsproPDU → Prop
  | .createMappingReq client b =>
      ∃ r, (bank.bankdSrvcHandleRx sm (.createMappingReq client b)).resp =
          some (.createMappingRes r) ∧
        CreateAtomic sm (bank.bankdSrvcHandleRx sm (.createMappingReq client b)).slotmaps
          (rspro2bankSlot b, rspro2clientSlot client) r
  | .removeMappingReq client b =>
      ∃ r, (bank.bankdSrvcHandleRx sm (.removeMappingReq client b)).resp =
          some (.removeMappingRes r) ∧
        RemoveAtomic (bank.check b = .ok) sm
          (bank.bankdSrvcHandleRx sm (.removeMappingReq client b)).slotmaps
          (rspro2bankSlot b, rspro2clientSlot client) r
  | _ => True

/-- A create request for a bank slot that is mapped to another client slot, and for a client slot
that is mapped to another bank slot. -/
def Displaces (bank : BankCfg) (sm : Slotmaps) : RsproPDU → Prop
  | .createMappingReq client b =>
      bank.check b = .ok ∧
        (∃ d ∈ sm.table, d.1 = rspro2bankSlot b ∧ d.2 ≠ rspro2clientSlot client) ∧
        ∃ d ∈ sm.table, d.1 ≠ rspro2bankSlot b ∧ d.2 = rspro2clientSlot client
  | _ => False

/-! ### What the handlers do to the mappings -/

theorem Untouched.refl (p : BankSlot × ClientSlot → Prop) (sm : Slotmaps) : Untouched p sm sm :=
  fun _ hm _ hx _ => ⟨hm, hx⟩

theorem CreateAtomic.refused {r : ResultCode} (hr : r ≠ .ok) (e : BankSlot × ClientSlot) :
    CreateAtomic sm sm e r :=
  ⟨fun _ => rfl, fun hok => absurd hok hr, Untouched.refl _ sm⟩

theorem RemoveAtomic.refused {valid : Prop} {r : ResultCode} (hr : r ≠ .ok)
    {e : BankSlot × ClientSlot} (he : ¬(valid ∧ e ∈ sm.table)) : RemoveAtomic valid sm sm e r :=
  ⟨fun _ => rfl, fun hok => absurd hok hr, iff_of_false hr he, Untouched.refl _ sm⟩

theorem Untouched.trans {p : BankSlot × ClientSlot → Prop} {sm₁ sm₂ sm₃ : Slotmaps}
    (h : Untouched p sm₁ sm₂) (h' : Untouched p sm₂ sm₃) : Untouched p sm₁ sm₃ := by
  intro m hm x hx hp
  obtain ⟨hm', hx'⟩ := h m hm x hx hp
  exact h' m hm' x hx' hp

theorem untouched_slotmapDel {p : BankSlot × ClientSlot → Prop} {m : MapId} {x : SlotMapping}
    (hx : sm.heap m = some x) (hp : ¬p x.slots) : Untouched p sm (sm.slotmapDel m) := by
  intro a ha y hy hpy
  have hne : a ≠ m := by
    rintro rfl
    exact hp (Option.some.inj (hx.symm.trans hy) ▸ hpy)
  refine ⟨Slotmaps.mem_slotmapDel.mpr ⟨ha, hne⟩, ?_⟩
  rw [Slotmaps.slotmapDel_heap_of_ne hne, hy]

theorem untouched_addMapping (h : sm.Wf) (p : BankSlot × ClientSlot → Prop) (ns : List Notice)
    (bs : BankSlot) (cs : ClientSlot) : Untouched p sm (addMapping sm ns bs cs).slotmaps := by
  unfold addMapping
  cases ha : sm.slotmapAdd bs cs with
  | none => exact Untouched.refl p sm
  | some r =>
      obtain ⟨_, _, rfl⟩ := (sm.slotmapAdd_eq_some).mp ha
      intro m hm x hx _
      refine ⟨List.mem_append_left _ hm, ?_⟩
      have hne : m ≠ sm.next := fun e => h.next_not_mem (e ▸ hm)
      exact (Slotmaps.alloc_heap_of_ne hne).trans hx

theorem table_client (h : sm.Wf) {e e' : BankSlot × ClientSlot} (he : e ∈ sm.table)
    (he' : e' ∈ sm.table) (hc : e.2 = e'.2) : e = e' := by
  obtain ⟨m, hm, x, hx, rfl⟩ := Slotmaps.mem_table.mp he
  obtain ⟨m', hm', x', hx', rfl⟩ := Slotmaps.mem_table.mp he'
  obtain rfl := h.client m hm m' hm' x x' hx hx' hc
  rw [Option.some.inj (hx.symm.trans hx')]

theorem nodup_table (h : sm.Wf) : sm.table.Nodup := by
  unfold List.Nodup Slotmaps.table
  rw [List.pairwise_filterMap]
  refine h.nodup.imp_of_mem fun {m m'} hm hm' hne e he e' he' heq => hne ?_
  obtain ⟨x, hx, rfl⟩ := Option.map_eq_some_iff.mp he
  obtain ⟨x', hx', rfl⟩ := Option.map_eq_some_iff.mp he'
  exact h.bank m hm m' hm' x x' hx hx' (Prod.mk.inj heq).1

/-- An accepted create request is answered with success unless the client slot is mapped to
another bank slot. -/
theorem createMapping_answer (h : sm.Wf) (bs : BankSlot) (cs : ClientSlot) :
    (createMapping sm bs cs).resp = some (.createMappingRes
      (if ∃ d ∈ sm.table, d.1 ≠ bs ∧ d.2 = cs then .illegalSlotId else .ok)) := by
  unfold createMapping
  rcases find_bank sm bs with ⟨hf, hfree⟩ | ⟨m, x, hf, hm, hx, rfl, hmem⟩
  · simp only [hf]
    obtain ⟨_, _, _, hr, _⟩ := addMapping_spec h cs hfree []
    have hex : (∃ d ∈ sm.table, d.2 = cs) ↔ ∃ d ∈ sm.table, d.1 ≠ bs ∧ d.2 = cs :=
      ⟨fun ⟨d, hd, e⟩ => ⟨d, hd, hfree d hd, e⟩, fun ⟨d, hd, _, e⟩ => ⟨d, hd, e⟩⟩
    simp only [hr, hex]
  · simp only [hf]
    by_cases hc : x.client = cs
    · have hno : ¬∃ d ∈ sm.table, d.1 ≠ x.bank ∧ d.2 = cs := by
        rintro ⟨d, hd, hb, he⟩
        exact hb (congrArg Prod.fst (table_client h hd hmem (he.trans hc.symm)))
      rw [if_pos hc, if_neg hno]
    · have hdel := h.table_slotmapDel hm hx
      have hfree : ∀ d ∈ (sm.slotmapDel m).table, d.1 ≠ x.bank := by
        intro d hd
        rw [hdel] at hd
        exact of_decide_eq_true (List.mem_filter.mp hd).2
      obtain ⟨_, _, _, hr, _⟩ :=
        addMapping_spec (h.slotmapDel m) cs hfree [.mapDel x.bank x.client]
      have hex : (∃ d ∈ (sm.slotmapDel m).table, d.2 = cs) ↔
          ∃ d ∈ sm.table, d.1 ≠ x.bank ∧ d.2 = cs := by
        rw [hdel]
        simp only [List.mem_filter, decide_eq_true_eq, and_assoc]
      rw [if_neg hc]
      simp only [hr, hex]

theorem untouched_createMapping (h : sm.Wf) (bs : BankSlot) (cs : ClientSlot) :
    Untouched (fun d => d.1 ≠ bs) sm (createMapping sm bs cs).slotmaps := by
  unfold createMapping
  rcases find_bank sm bs with ⟨hf, _⟩ | ⟨m, x, hf, _, hx, rfl, _⟩
  · simp only [hf]
    exact untouched_addMapping h _ [] bs cs
  · simp only [hf]
    split_ifs with hc
    · exact Untouched.refl _ sm
    · refine (untouched_slotmapDel hx (not_not.mpr ?_)).trans
        (untouched_addMapping (h.slotmapDel m) _ _ x.bank cs)
      rfl

/-- A refused creation leaves the table alone exactly when the bank slot was free. -/
theorem createMapping_refused (h : sm.Wf) {bs : BankSlot} {cs : ClientSlot}
    (htaken : ∃ d ∈ sm.table, d.1 ≠ bs ∧ d.2 = cs) :
    (createMapping sm bs cs).slotmaps = sm ↔ ¬∃ d ∈ sm.table, d.1 = bs ∧ d.2 ≠ cs := by
  obtain ⟨d, hd, hb, hdc⟩ := htaken
  constructor
  · rintro hsame ⟨f, hf, rfl, hfc⟩
    have hne : (f.1, cs) ∉ sm.table := by
      intro he
      have heq : d = (f.1, cs) := table_client h hd he hdc
      exact hb (by rw [heq])
    have ht := (createMapping_spec h f.1 cs).table
    rw [hsame, tableCreate, if_neg hne, if_pos ⟨d, hd, hb, hdc⟩] at ht
    rw [ht] at hf
    exact of_decide_eq_true (List.mem_filter.mp hf).2 rfl
  · intro hfree
    unfold createMapping
    rcases find_bank sm bs with ⟨hf, _⟩ | ⟨m, x, hf, _, _, rfl, hmem⟩
    · simp only [hf]
      unfold addMapping
      have hc : sm.slotmapByClient cs ≠ none := fun hn =>
        Slotmaps.slotmapByClient_eq_none.mp hn d hd hdc
      rw [(sm.slotmapAdd_eq_none).mpr (.inr hc)]
    · simp only [hf]
      have hc : x.client = cs := by
        by_contra hc
        exact hfree ⟨_, hmem, rfl, hc⟩
      rw [if_pos hc]

theorem tableCreate_perm (h : sm.Wf) {e : BankSlot × ClientSlot}
    (hfree : ¬∃ d ∈ sm.table, d.1 ≠ e.1 ∧ d.2 = e.2) :
    (tableCreate sm.table e).Perm (sm.table.filter (fun d => d.1 ≠ e.1) ++ [e]) := by
  unfold tableCreate
  split_ifs with he
  · have hrest : sm.table.filter (fun d => d.1 ≠ e.1) = sm.table.filter (· ≠ e) := by
      refine List.filter_congr fun d hd => ?_
      rw [decide_eq_decide, not_iff_not]
      exact ⟨fun hb => h.table_bank hd he hb, fun hb => by rw [hb]⟩
    have herase : sm.table.erase e = sm.table.filter (· ≠ e) := by
      rw [(nodup_table h).erase_eq_filter]
      exact List.filter_congr fun d _ => by rw [Bool.eq_iff_iff, bne_iff_ne, decide_eq_true_iff]
    rw [hrest, ← herase]
    exact (List.perm_cons_erase he).trans (List.perm_append_singleton e _).symm
  · exact List.Perm.refl _

/-- An accepted create request is atomic unless it displaces a mapping in vain. -/
theorem createMapping_atomic (h : sm.Wf) (bs : BankSlot) (cs : ClientSlot) :
    (∃ r, (createMapping sm bs cs).resp = some (.createMappingRes r) ∧
        CreateAtomic sm (createMapping sm bs cs).slotmaps (bs, cs) r) ↔
      ¬((∃ d ∈ sm.table, d.1 = bs ∧ d.2 ≠ cs) ∧ ∃ d ∈ sm.table, d.1 ≠ bs ∧ d.2 = cs) := by
  have hans := createMapping_answer h bs cs
  have ht := (createMapping_spec h bs cs).table
  by_cases htaken : ∃ d ∈ sm.table, d.1 ≠ bs ∧ d.2 = cs
  · rw [if_pos htaken] at hans
    have href := createMapping_refused h htaken
    constructor
    · rintro ⟨r, hr, ha⟩ ⟨hmapped, _⟩
      obtain rfl : ResultCode.illegalSlotId = r := by
        rw [hans] at hr
        injection hr with hr
        injection hr
      exact href.mp (ha.failed (by decide)) hmapped
    · intro hno
      have hsame := href.mpr fun hmapped => hno ⟨hmapped, htaken⟩
      refine ⟨_, hans, ?_⟩
      rw [hsame]
      exact CreateAtomic.refused (by decide) _
  · rw [if_neg htaken] at hans
    refine iff_of_true ⟨_, hans, fun hn => absurd rfl hn, fun _ => ?_,
      untouched_createMapping h bs cs⟩ fun hno => htaken hno.2
    rw [ht]
    exact tableCreate_perm h htaken

theorem removeMapping_atomic (h : sm.Wf) (bs : BankSlot) (cs : ClientSlot) :
    ∃ r, (removeMapping sm bs cs).resp = some (.removeMappingRes r) ∧
      RemoveAtomic True sm (removeMapping sm bs cs).slotmaps (bs, cs) r := by
  have ht := (removeMapping_spec h bs cs).2.1
  unfold removeMapping at ht ⊢
  rcases find_bank sm bs with ⟨hf, hfree⟩ | ⟨m, x, hf, hm, hx, rfl, hmem⟩
  · simp only [hf]
    exact ⟨_, rfl, RemoveAtomic.refused (by decide) fun he => hfree _ he.2 rfl⟩
  · simp only [hf] at ht ⊢
    by_cases hc : x.client = cs
    · subst hc
      simp only [ne_eq, not_true_eq_false, if_false] at ht ⊢
      refine ⟨_, rfl, fun hn => absurd rfl hn, fun _ => ht,
        iff_of_true rfl ⟨trivial, hmem⟩, untouched_slotmapDel hx (not_not.mpr ?_)⟩
      rfl
    · have hne : (x.bank, cs) ∉ sm.table := fun he =>
        hc (congrArg Prod.snd (h.table_bank hmem he rfl))
      simp only [ne_eq, hc, not_false_eq_true, if_true]
      exact ⟨_, rfl, RemoveAtomic.refused (by decide) fun he => hne he.2⟩

/-- **A request of the server is atomic exactly when it is no create request whose bank slot and
client slot are both mapped elsewhere.** -/
theorem atomic_iff (h : sm.Wf) (pdu : RsproPDU) : bank.Atomic sm pdu ↔ ¬bank.Displaces sm pdu := by
  cases pdu with
  | createMappingReq client b =>
      unfold Atomic Displaces
      simp only [bankdSrvcHandleRx]
      cases hck : bank.check b with
      | ok =>
          simp only [true_and]
          exact createMapping_atomic h _ _
      | _ =>
          simp only [reduceCtorEq, false_and, not_false_eq_true, iff_true]
          exact ⟨_, rfl, CreateAtomic.refused (by decide) _⟩
  | removeMappingReq client b =>
      unfold Atomic Displaces
      simp only [bankdSrvcHandleRx, not_false_eq_true, iff_true]
      cases hck : bank.check b with
      | ok =>
          obtain ⟨r, hr, ha⟩ := removeMapping_atomic h (rspro2bankSlot b) (rspro2clientSlot client)
          refine ⟨r, hr, ha.failed, ha.done, ?_, ha.others⟩
          simpa only [true_and] using ha.answer
      | _ =>
          exact ⟨_, rfl, RemoveAtomic.refused (by decide) fun he => absurd he.1 (by decide)⟩
  | _ => exact iff_of_true trivial id

/-- Two mappings in a bank of eight slots. -/
def twoMappings : Slotmaps :=
  (Slotmaps.empty.alloc ⟨1, 0⟩ ⟨5, 0⟩).alloc ⟨1, 1⟩ ⟨5, 1⟩

theorem wf_twoMappings : twoMappings.Wf := by
  have h₁ : Slotmaps.empty.slotmapAdd ⟨1, 0⟩ ⟨5, 0⟩ =
      some (0, Slotmaps.empty.alloc ⟨1, 0⟩ ⟨5, 0⟩) := rfl
  have h₂ : (Slotmaps.empty.alloc ⟨1, 0⟩ ⟨5, 0⟩).slotmapAdd ⟨1, 1⟩ ⟨5, 1⟩ =
      some (1, twoMappings) := rfl
  exact (Slotmaps.wf_empty.slotmapAdd h₁).slotmapAdd h₂

/-- Swapping the client slots starts with a request that removes a mapping and adds none. -/
theorem swap_displaces :
    twoMappings.Wf ∧
      ¬(BankCfg.mk 1 8).Atomic twoMappings (.createMappingReq ⟨5, 1⟩ ⟨1, 0⟩) := by
  refine ⟨wf_twoMappings, ?_⟩
  rintro ⟨r, hr, ha⟩
  obtain rfl : ResultCode.illegalSlotId = r := by
    have hrefused : ((BankCfg.mk 1 8).bankdSrvcHandleRx twoMappings
        (.createMappingReq ⟨5, 1⟩ ⟨1, 0⟩)).resp = some (.createMappingRes .illegalSlotId) := by
      decide
    rw [hrefused] at hr
    injection hr with hr
    injection hr
  have hlen := congrArg (fun sm => sm.table.length) (ha.failed (by decide))
  exact absurd hlen (by decide)

/-- Moving a bank slot to a free client slot is atomic. -/
theorem move_atomic :
    (BankCfg.mk 1 8).Atomic twoMappings (.createMappingReq ⟨5, 2⟩ ⟨1, 0⟩) :=
  (atomic_iff wf_twoMappings _).mpr fun h => absurd h.2.2 (by decide)

end BankCfg

end Remsim
