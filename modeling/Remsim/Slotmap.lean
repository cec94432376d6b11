import Mathlib

/-! # Slot maps (`slotmap.c`)

The table of bank-slot/client-slot mappings that `remsim-server` and `remsim-bankd` share.  A
`struct slot_mapping` is a heap object: it is allocated by `slotmap_add()`, linked into the list
`slotmaps->mappings`, pointed to by other lists of the server, and freed by `_slotmap_del()`.
`Slotmaps` therefore keeps the heap of allocated mappings, the `mappings` list of pointers into it
and the next free address.  A pointer node is in a list at most once, so `llist_del()` is the
removal of every occurrence of the pointer.

`Slotmaps.table` forgets the pointers: it is the list of slot pairs in list order, and
`table_slotmapAdd`, `table_slotmapDel` say what the operations do to it. -/

namespace Remsim

/-- `struct bank_slot`. -/
structure BankSlot where
  bankId : UInt16
  slotNr : UInt16
deriving DecidableEq, Repr

/-- `struct client_slot`. -/
structure ClientSlot where
  clientId : UInt16
  slotNr : UInt16
deriving DecidableEq, Repr

/-- `enum slot_mapping_state`. -/
inductive SlotMappingState where
  | new
  | unacknowledged
  | active
  | deleteReq
  | deleting
deriving DecidableEq, Repr

/-- Address of a `struct slot_mapping`. -/
abbrev MapId := ℕ

/-- `struct slot_mapping` without its list nodes. -/
structure SlotMapping where
  bank : BankSlot
  client : ClientSlot
  state : SlotMappingState
deriving DecidableEq, Repr

/-- The slot pair of a mapping. -/
def SlotMapping.slots (x : SlotMapping) : BankSlot × ClientSlot := (x.bank, x.client)

/-- `struct slotmaps` together with the heap its pointers refer to. -/
structure Slotmaps where
  heap : MapId → Option SlotMapping
  mappings : List MapId
  next : MapId

namespace Slotmaps

/-- `slotmap_init()`. -/
def empty : Slotmaps := ⟨fun _ => none, [], 0⟩

variable (sm : Slotmaps)

/-- `slotmap_by_client()`. -/
def slotmapByClient (client : ClientSlot) : Option MapId :=
  sm.mappings.find? fun m => (sm.heap m).any fun x => x.client = client

/-- `slotmap_by_bank()`. -/
def slotmapByBank (bank : BankSlot) : Option MapId :=
  sm.mappings.find? fun m => (sm.heap m).any fun x => x.bank = bank

/-- The allocation and linking at the end of `slotmap_add()`. -/
def alloc (bank : BankSlot) (client : ClientSlot) : Slotmaps where
  heap := Function.update sm.heap sm.next (some ⟨bank, client, .new⟩)
  mappings := sm.mappings ++ [sm.next]
  next := sm.next + 1

/-- `slotmap_add()`: the new mapping and its address, or `none` when either slot is in use. -/
def slotmapAdd (bank : BankSlot) (client : ClientSlot) : Option (MapId × Slotmaps) :=
  if (sm.slotmapByBank bank).isSome then none
  else if (sm.slotmapByClient client).isSome then none
  else some (sm.next, sm.alloc bank client)

/-- `_slotmap_del()`, as far as the global list and the heap are concerned. -/
def slotmapDel (m : MapId) : Slotmaps where
  heap := Function.update sm.heap m none
  mappings := sm.mappings.filter (· ≠ m)
  next := sm.next

/-- `slotmap_del_all()`. -/
def slotmapDelAll : Slotmaps := sm.mappings.foldl slotmapDel sm

/-! ### Lookups -/

theorem slotmapByBank_some {bank : BankSlot} {m : MapId} (h : sm.slotmapByBank bank = some m) :
    m ∈ sm.mappings ∧ ∃ x, sm.heap m = some x ∧ x.bank = bank := by
  have hp := List.find?_some h
  refine ⟨List.mem_of_find?_eq_some h, ?_⟩
  cases hx : sm.heap m with
  | none => simp [hx] at hp
  | some x => exact ⟨x, rfl, by simpa [hx] using hp⟩

theorem slotmapByClient_some {client : ClientSlot} {m : MapId}
    (h : sm.slotmapByClient client = some m) :
    m ∈ sm.mappings ∧ ∃ x, sm.heap m = some x ∧ x.client = client := by
  have hp := List.find?_some h
  refine ⟨List.mem_of_find?_eq_some h, ?_⟩
  cases hx : sm.heap m with
  | none => simp [hx] at hp
  | some x => exact ⟨x, rfl, by simpa [hx] using hp⟩

theorem slotmapByBank_none {bank : BankSlot} :
    sm.slotmapByBank bank = none ↔
      ∀ m ∈ sm.mappings, ∀ x, sm.heap m = some x → x.bank ≠ bank := by
  unfold slotmapByBank
  rw [List.find?_eq_none]
  refine forall_congr' fun m => forall_congr' fun _ => ?_
  cases sm.heap m <;> simp

theorem slotmapByClient_none {client : ClientSlot} :
    sm.slotmapByClient client = none ↔
      ∀ m ∈ sm.mappings, ∀ x, sm.heap m = some x → x.client ≠ client := by
  unfold slotmapByClient
  rw [List.find?_eq_none]
  refine forall_congr' fun m => forall_congr' fun _ => ?_
  cases sm.heap m <;> simp

theorem slotmapAdd_eq_some {bank : BankSlot} {client : ClientSlot} {r : MapId × Slotmaps} :
    sm.slotmapAdd bank client = some r ↔
      sm.slotmapByBank bank = none ∧ sm.slotmapByClient client = none ∧
        r = (sm.next, sm.alloc bank client) := by
  unfold slotmapAdd
  cases sm.slotmapByBank bank <;> cases sm.slotmapByClient client <;> simp [eq_comm]

theorem slotmapAdd_eq_none {bank : BankSlot} {client : ClientSlot} :
    sm.slotmapAdd bank client = none ↔
      sm.slotmapByBank bank ≠ none ∨ sm.slotmapByClient client ≠ none := by
  unfold slotmapAdd
  cases sm.slotmapByBank bank <;> cases sm.slotmapByClient client <;> simp

/-! ### Well-formed tables -/

/-- No two mappings of the list agree on the key `f`. -/
def UniqueOn {β : Type} (f : SlotMapping → β) : Prop :=
  ∀ m ∈ sm.mappings, ∀ m' ∈ sm.mappings, ∀ x x', sm.heap m = some x → sm.heap m' = some x' →
    f x = f x' → m = m'

/-- The list has no pointer twice, all its pointers are allocated, and no two of its mappings
share a bank slot or a client slot; allocated addresses lie below `next`. -/
structure Wf : Prop where
  nodup : sm.mappings.Nodup
  alloc : ∀ m ∈ sm.mappings, ∃ x, sm.heap m = some x
  bank : sm.UniqueOn SlotMapping.bank
  client : sm.UniqueOn SlotMapping.client
  fresh : ∀ m x, sm.heap m = some x → m < sm.next

theorem wf_empty : Wf empty := by
  constructor <;> simp [empty, UniqueOn]

variable {sm}

theorem Wf.lt_next (h : sm.Wf) {m : MapId} (hm : m ∈ sm.mappings) : m < sm.next := by
  obtain ⟨x, hx⟩ := h.alloc m hm
  exact h.fresh m x hx

theorem Wf.next_not_mem (h : sm.Wf) : sm.next ∉ sm.mappings :=
  fun hm => Nat.lt_irrefl _ (h.lt_next hm)

theorem alloc_heap_of_ne {bank : BankSlot} {client : ClientSlot} {m : MapId} (h : m ≠ sm.next) :
    (sm.alloc bank client).heap m = sm.heap m := Function.update_of_ne h _ _

@[simp] theorem alloc_heap_next (bank : BankSlot) (client : ClientSlot) :
    (sm.alloc bank client).heap sm.next = some ⟨bank, client, .new⟩ := Function.update_self _ _ _

theorem Wf.alloc_mem (h : sm.Wf) {bank : BankSlot} {client : ClientSlot} {m : MapId}
    (hm : m ∈ (sm.alloc bank client).mappings) :
    (m ≠ sm.next ∧ m ∈ sm.mappings ∧ (sm.alloc bank client).heap m = sm.heap m) ∨
      (m = sm.next ∧ (sm.alloc bank client).heap m = some ⟨bank, client, .new⟩) := by
  simp only [Slotmaps.alloc, List.mem_append, List.mem_singleton] at hm
  rcases hm with hm | rfl
  · have hne : m ≠ sm.next := fun e => h.next_not_mem (e ▸ hm)
    exact .inl ⟨hne, hm, alloc_heap_of_ne hne⟩
  · exact .inr ⟨rfl, alloc_heap_next bank client⟩

/-- Allocation keeps a key unique when no listed mapping has the new mapping's key. -/
theorem Wf.uniqueOn_alloc (h : sm.Wf) {β : Type} {f : SlotMapping → β} (hf : sm.UniqueOn f)
    {bank : BankSlot} {client : ClientSlot}
    (hnew : ∀ m ∈ sm.mappings, ∀ x, sm.heap m = some x → f x ≠ f ⟨bank, client, .new⟩) :
    (sm.alloc bank client).UniqueOn f := by
  intro a ha b hb x y hx hy e
  rcases h.alloc_mem ha with ⟨_, hm, he⟩ | ⟨rfl, he⟩ <;>
    rcases h.alloc_mem hb with ⟨_, hm', he'⟩ | ⟨rfl, he'⟩
  · exact hf a hm b hm' x y (he ▸ hx) (he' ▸ hy) e
  · rw [he'] at hy
    rw [← Option.some.inj hy] at e
    exact absurd e (hnew a hm x (he ▸ hx))
  · rw [he] at hx
    rw [← Option.some.inj hx] at e
    exact absurd e.symm (hnew b hm' y (he' ▸ hy))
  · rfl

theorem Wf.slotmapAdd (h : sm.Wf) {bank : BankSlot} {client : ClientSlot} {m : MapId}
    {sm' : Slotmaps} (ha : sm.slotmapAdd bank client = some (m, sm')) : sm'.Wf := by
  obtain ⟨hb, hc, hr⟩ := (sm.slotmapAdd_eq_some).mp ha
  obtain ⟨rfl, rfl⟩ := Prod.mk.inj hr
  rw [slotmapByBank_none] at hb
  rw [slotmapByClient_none] at hc
  refine ⟨?_, ?_, h.uniqueOn_alloc h.bank hb, h.uniqueOn_alloc h.client hc, ?_⟩
  · show (sm.mappings ++ [sm.next]).Nodup
    rw [List.nodup_append]
    refine ⟨h.nodup, List.nodup_singleton _, ?_⟩
    intro a ha b hb' e
    rw [List.mem_singleton.mp hb'] at e
    exact h.next_not_mem (e ▸ ha)
  · intro a ha
    rcases h.alloc_mem ha with ⟨_, hm, he⟩ | ⟨rfl, he⟩
    · rw [he]; exact h.alloc a hm
    · exact ⟨_, he⟩
  · intro a x hx
    show a < sm.next + 1
    by_cases he : a = sm.next
    · exact he ▸ Nat.lt_succ_self _
    · rw [alloc_heap_of_ne he] at hx
      exact Nat.lt_succ_of_lt (h.fresh a x hx)

theorem slotmapDel_heap_of_ne {m a : MapId} (h : a ≠ m) : (sm.slotmapDel m).heap a = sm.heap a :=
  Function.update_of_ne h _ _

@[simp] theorem slotmapDel_heap_self (m : MapId) : (sm.slotmapDel m).heap m = none :=
  Function.update_self _ _ _

theorem mem_slotmapDel {m a : MapId} :
    a ∈ (sm.slotmapDel m).mappings ↔ a ∈ sm.mappings ∧ a ≠ m := by
  simp [slotmapDel]

theorem UniqueOn.slotmapDel {β : Type} {f : SlotMapping → β} (hf : sm.UniqueOn f) (m : MapId) :
    (sm.slotmapDel m).UniqueOn f := by
  intro a ha b hb x y hx hy e
  obtain ⟨ha, hne⟩ := mem_slotmapDel.mp ha
  obtain ⟨hb, hne'⟩ := mem_slotmapDel.mp hb
  rw [slotmapDel_heap_of_ne hne] at hx
  rw [slotmapDel_heap_of_ne hne'] at hy
  exact hf a ha b hb x y hx hy e

theorem Wf.slotmapDel (h : sm.Wf) (m : MapId) : (sm.slotmapDel m).Wf := by
  refine ⟨h.nodup.filter _, ?_, h.bank.slotmapDel m, h.client.slotmapDel m, ?_⟩
  · intro a ha
    obtain ⟨ha, hne⟩ := mem_slotmapDel.mp ha
    rw [slotmapDel_heap_of_ne hne]
    exact h.alloc a ha
  · intro a x hx
    by_cases he : a = m
    · subst he; simp at hx
    · rw [slotmapDel_heap_of_ne he] at hx
      exact h.fresh a x hx

/-! ### The table of slot pairs -/

/-- The slot pairs of the listed mappings, in list order. -/
def table (sm : Slotmaps) : List (BankSlot × ClientSlot) :=
  sm.mappings.filterMap fun m => (sm.heap m).map SlotMapping.slots

theorem mem_table {e : BankSlot × ClientSlot} :
    e ∈ sm.table ↔ ∃ m ∈ sm.mappings, ∃ x, sm.heap m = some x ∧ x.slots = e := by
  simp only [table, List.mem_filterMap, Option.map_eq_some_iff]

theorem Wf.table_bank (h : sm.Wf) {e e' : BankSlot × ClientSlot} (he : e ∈ sm.table)
    (he' : e' ∈ sm.table) (hb : e.1 = e'.1) : e = e' := by
  obtain ⟨m, hm, x, hx, rfl⟩ := mem_table.mp he
  obtain ⟨m', hm', x', hx', rfl⟩ := mem_table.mp he'
  obtain rfl := h.bank m hm m' hm' x x' hx hx' hb
  rw [Option.some.inj (hx.symm.trans hx')]

theorem slotmapByBank_eq_none {bank : BankSlot} :
    sm.slotmapByBank bank = none ↔ ∀ e ∈ sm.table, e.1 ≠ bank := by
  rw [slotmapByBank_none]
  constructor
  · rintro h e he
    obtain ⟨m, hm, x, hx, rfl⟩ := mem_table.mp he
    exact h m hm x hx
  · intro h m hm x hx
    exact h x.slots (mem_table.mpr ⟨m, hm, x, hx, rfl⟩)

theorem slotmapByClient_eq_none {client : ClientSlot} :
    sm.slotmapByClient client = none ↔ ∀ e ∈ sm.table, e.2 ≠ client := by
  rw [slotmapByClient_none]
  constructor
  · rintro h e he
    obtain ⟨m, hm, x, hx, rfl⟩ := mem_table.mp he
    exact h m hm x hx
  · intro h m hm x hx
    exact h x.slots (mem_table.mpr ⟨m, hm, x, hx, rfl⟩)

theorem Wf.table_slotmapAdd (h : sm.Wf) {bank : BankSlot} {client : ClientSlot} {m : MapId}
    {sm' : Slotmaps} (ha : sm.slotmapAdd bank client = some (m, sm')) :
    sm'.table = sm.table ++ [(bank, client)] := by
  obtain ⟨_, _, hr⟩ := (sm.slotmapAdd_eq_some).mp ha
  obtain ⟨rfl, rfl⟩ := Prod.mk.inj hr
  show (sm.mappings ++ [sm.next]).filterMap _ = _
  rw [List.filterMap_append]
  refine congrArg₂ _ (List.filterMap_congr fun a ha => ?_) ?_
  · rw [alloc_heap_of_ne fun e => h.next_not_mem (e ▸ ha)]
  · rw [List.filterMap_cons_some (b := (bank, client)) (by rw [alloc_heap_next]; rfl)]
    rfl

/-- Deleting takes out the pair with the bank slot of the deleted mapping. -/
theorem Wf.table_slotmapDel (h : sm.Wf) {m : MapId} {x : SlotMapping} (hm : m ∈ sm.mappings)
    (hx : sm.heap m = some x) :
    (sm.slotmapDel m).table = sm.table.filter fun e => e.1 ≠ x.bank := by
  have key : ∀ ms : List MapId, (∀ a ∈ ms, a ∈ sm.mappings) →
      (ms.filter (· ≠ m)).filterMap (fun a => ((sm.slotmapDel m).heap a).map SlotMapping.slots) =
        (ms.filterMap fun a => (sm.heap a).map SlotMapping.slots).filter fun e => e.1 ≠ x.bank := by
    intro ms
    induction ms with
    | nil => exact fun _ => rfl
    | cons a ms ih =>
        intro hms
        have ih := ih fun b hb => hms b (List.mem_cons_of_mem _ hb)
        obtain ⟨y, hy⟩ := h.alloc a (hms a List.mem_cons_self)
        have hcons : (a :: ms).filterMap (fun a => (sm.heap a).map SlotMapping.slots) =
            y.slots :: ms.filterMap fun a => (sm.heap a).map SlotMapping.slots :=
          List.filterMap_cons_some (by rw [hy]; rfl)
        rw [hcons]
        by_cases he : a = m
        · subst he
          have hyx : y = x := Option.some.inj (hy.symm.trans hx)
          rw [List.filter_cons_of_neg (by simp), List.filter_cons_of_neg (by simp [hyx,
            SlotMapping.slots])]
          exact ih
        · have hne : y.bank ≠ x.bank := fun e =>
            he (h.bank a (hms a List.mem_cons_self) m hm y x hy hx e)
          rw [List.filter_cons_of_pos (by simpa using he), List.filter_cons_of_pos (a := y.slots)
            (p := fun e => decide (e.1 ≠ x.bank)) (decide_eq_true hne),
            List.filterMap_cons_some (b := y.slots)
            (by rw [slotmapDel_heap_of_ne he, hy]; rfl), ih]
  exact key sm.mappings fun _ ha => ha

theorem Wf.foldl_slotmapDel :
    ∀ (ms : List MapId) {sm : Slotmaps}, sm.Wf → (ms.foldl Slotmaps.slotmapDel sm).Wf ∧
      ∀ a, a ∈ (ms.foldl Slotmaps.slotmapDel sm).mappings ↔ a ∈ sm.mappings ∧ a ∉ ms
  | [], sm, h => ⟨h, fun a => by simp⟩
  | m :: ms, sm, h => by
      obtain ⟨hw, hm⟩ := Wf.foldl_slotmapDel ms (h.slotmapDel m)
      refine ⟨hw, fun a => (hm a).trans ?_⟩
      rw [mem_slotmapDel, List.mem_cons]
      tauto

theorem Wf.slotmapDelAll (h : sm.Wf) : sm.slotmapDelAll.Wf ∧ sm.slotmapDelAll.table = [] := by
  obtain ⟨hw, hm⟩ := Wf.foldl_slotmapDel sm.mappings h
  refine ⟨hw, ?_⟩
  have hnil : sm.slotmapDelAll.mappings = [] := by
    refine List.eq_nil_iff_forall_not_mem.mpr fun a ha => ?_
    obtain ⟨h₁, h₂⟩ := (hm a).mp ha
    exact h₂ h₁
  rw [table, hnil]
  rfl

end Slotmaps

end Remsim
