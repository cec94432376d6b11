import Remsim.Server
import Remsim.Lists

/-! # Slot-map bookkeeping

The part of the server state that the bookkeeping invariant is about: the slot maps, the five lists
of every connection, and `bankOf`, which tells the bank identity of the connections in
`srv->banks`.  `Book` has the elementary list operations of the server; everything else the server
does leaves its book unchanged (`Remsim.Refinement`).

`Book.Inv` is the invariant: a mapping is linked exactly where its state says, on the connection of
its own bank; unlinked mappings are `NEW`; and a `NEW` mapping of the global list whose bank is
connected is queued there.  `Inv.move` is the step lemma for a change of lifecycle state,
`Inv.moveAll` its loop, and `Inv.connect`, `Inv.drop` treat the coming and going of a bank. -/

namespace Remsim

theorem BankList.state_injective {l l' : BankList} (h : l.state = l'.state) : l = l' := by
  cases l <;> cases l' <;> first | rfl | cases h

theorem BankList.state_ne_new {l : BankList} (h : l ≠ .mapsNew) : l.state ≠ .new :=
  fun e => h (@BankList.state_injective l .mapsNew e)

/-- Slot maps, bank lists and the identities of the connected banks. -/
@[ext]
structure Book extends Slotmaps where
  maps : ConnId → BankList → List MapId
  bankOf : ConnId → Option UInt16

namespace Book

variable (b : Book)

/-- `_Slotmap_state_change()`. -/
def stateChange (m : MapId) (st : SlotMappingState) (dst : Option (ConnId × BankList)) : Book :=
  { b with
    heap := Function.update b.heap m ((b.heap m).map fun x => { x with state := st })
    maps := fun c l => (b.maps c l).filter (· ≠ m) ++ (if dst = some (c, l) then [m] else []) }

/-- `_slotmap_del()`. -/
def free (m : MapId) : Book :=
  { b with
    toSlotmaps := b.toSlotmaps.slotmapDel m
    maps := fun c l => (b.maps c l).filter (· ≠ m) }

/-- Removal from the global list only. -/
def hide (m : MapId) : Book := { b with mappings := b.mappings.filter (· ≠ m) }

/-- Moving mappings one after the other to a list of a connection. -/
def moveAll (c : ConnId) (l : BankList) (ms : List MapId) : Book :=
  ms.foldl (fun b m => b.stateChange m l.state (some (c, l))) b

/-- Returning mappings to `NEW` on no list, one after the other. -/
def unlinkNew (ms : List MapId) : Book := ms.foldl (fun b m => b.stateChange m .new none) b

/-- Freeing mappings one after the other. -/
def freeAll (ms : List MapId) : Book := ms.foldl free b

/-- `_unlink_all_slotmaps()`. -/
def unlinkAll (c : ConnId) : Book :=
  let b := b.unlinkNew (b.maps c .mapsNew)
  let b := b.unlinkNew (b.maps c .mapsUnack)
  let b := b.unlinkNew (b.maps c .mapsActive)
  let b := b.freeAll (b.maps c .mapsDelreq)
  b.freeAll (b.maps c .mapsDeleting)

/-- A connection enters `srv->banks` with the given identity. -/
def setBank (c : ConnId) (id : Option UInt16) : Book :=
  { b with bankOf := Function.update b.bankOf c id }

/-- The two loops of `CLNTC_E_PUSH`. -/
def push (c : ConnId) : Book :=
  let b := b.moveAll c .mapsUnack (b.maps c .mapsNew)
  b.moveAll c .mapsDeleting (b.maps c .mapsDelreq)

/-- `api_cb_slotmaps_post()`; `dst` is the connection of the bank, if any. -/
def post (bank : BankSlot) (client : ClientSlot) (dst : Option ConnId) : Book :=
  match b.slotmapAdd bank client with
  | none => b
  | some (m, sm) =>
      let b := { b with toSlotmaps := sm }
      let b := b.stateChange m .new none
      match dst with
      | none => b
      | some c => b.stateChange m .new (some (c, .mapsNew))

/-- `_slotmap_mark_deleted()`; `conn` finds the connection of a bank. -/
def mark (conn : UInt16 → Option ConnId) (m : MapId) : Book :=
  match b.heap m with
  | none => b
  | some x =>
      match x.state with
      | .new => (b.hide m).free m
      | .active =>
          match conn x.bank.bankId with
          | none => b.hide m
          | some c => (b.hide m).stateChange m .deleteReq (some (c, .mapsDelreq))
      | _ => b.hide m

/-- Marking mappings one after the other. -/
def markAll (conn : UInt16 → Option ConnId) (ms : List MapId) : Book :=
  ms.foldl (fun b m => b.mark conn m) b

/-- The loop of `clnt_st_connected_bankd_onenter()` over the global list. -/
def linkAll (c : ConnId) (ms : List MapId) : Book :=
  ms.foldl (fun (b : Book) m =>
    if ((b.heap m).map fun x => x.bank.bankId) = b.bankOf c then
      b.stateChange m .new (some (c, .mapsNew))
    else b) b

/-- A bank of the given identity is accepted: its mappings are linked and pushed. -/
def connect (c : ConnId) (id : UInt16) : Book :=
  ((b.setBank c (some id)).linkAll c b.mappings).push c

/-- A bank connection is lost. -/
def drop (c : ConnId) : Book := (b.unlinkAll c).setBank c none

/-- `CLNTC_E_CREATE_MAP_RES`: the first unacknowledged mapping becomes active. -/
def ack (c : ConnId) : Book :=
  match b.maps c .mapsUnack with
  | [] => b
  | m :: _ => b.stateChange m .active (some (c, .mapsActive))

/-- `CLNTC_E_REMOVE_MAP_RES`: the first mapping being deleted is freed. -/
def unmap (c : ConnId) : Book :=
  match b.maps c .mapsDeleting with
  | [] => b
  | m :: _ => b.free m

/-! ### What the elementary operations do -/

variable {b}

theorem stateChange_heap_of_ne {m a : MapId} {st : SlotMappingState}
    {dst : Option (ConnId × BankList)} (h : a ≠ m) :
    (b.stateChange m st dst).heap a = b.heap a := Function.update_of_ne h _ _

@[simp] theorem stateChange_heap_self (m : MapId) (st : SlotMappingState)
    (dst : Option (ConnId × BankList)) :
    (b.stateChange m st dst).heap m = (b.heap m).map fun x => { x with state := st } :=
  Function.update_self _ _ _

theorem mem_stateChange {m a : MapId} {st : SlotMappingState} {dst : Option (ConnId × BankList)}
    {c : ConnId} {l : BankList} :
    a ∈ (b.stateChange m st dst).maps c l ↔
      (a ∈ b.maps c l ∧ a ≠ m) ∨ (a = m ∧ dst = some (c, l)) := by
  simp only [stateChange, List.mem_append, List.mem_filter, decide_eq_true_eq]
  split_ifs with h <;> simp [h]

theorem stateChange_heap {m a : MapId} {st : SlotMappingState} {dst : Option (ConnId × BankList)}
    {x : SlotMapping} (h : (b.stateChange m st dst).heap a = some x) :
    ∃ y, b.heap a = some y ∧ x.slots = y.slots ∧ (a = m ∧ x.state = st ∨ a ≠ m ∧ x = y) := by
  by_cases ha : a = m
  · subst ha
    rw [stateChange_heap_self, Option.map_eq_some_iff] at h
    obtain ⟨y, hy, rfl⟩ := h
    exact ⟨y, hy, rfl, .inl ⟨rfl, rfl⟩⟩
  · rw [stateChange_heap_of_ne ha] at h
    exact ⟨x, h, rfl, .inr ⟨ha, rfl⟩⟩

theorem slotmaps_stateChange_wf {m : MapId} {st : SlotMappingState}
    {dst : Option (ConnId × BankList)} (h : b.toSlotmaps.Wf) :
    (b.stateChange m st dst).toSlotmaps.Wf := by
  have key : ∀ {β : Type} (f : SlotMapping → β),
      (∀ x y : SlotMapping, x.slots = y.slots → f x = f y) →
      b.toSlotmaps.UniqueOn f → (b.stateChange m st dst).toSlotmaps.UniqueOn f := by
    intro β f hf hu a ha a' ha' x x' hx hx' e
    obtain ⟨y, hy, hxy, _⟩ := stateChange_heap hx
    obtain ⟨y', hy', hxy', _⟩ := stateChange_heap hx'
    exact hu a ha a' ha' y y' hy hy' (by rw [← hf x y hxy, ← hf x' y' hxy']; exact e)
  refine ⟨h.nodup, ?_, key _ ?_ h.bank, key _ ?_ h.client, ?_⟩
  · intro a ha
    obtain ⟨x, hx⟩ := h.alloc a ha
    by_cases he : a = m
    · subst he; exact ⟨_, by rw [stateChange_heap_self, hx]; rfl⟩
    · exact ⟨x, by rw [stateChange_heap_of_ne he]; exact hx⟩
  · intro x y e; exact congrArg Prod.fst e
  · intro x y e; exact congrArg Prod.snd e
  · intro a x hx
    obtain ⟨y, hy, _⟩ := stateChange_heap hx
    exact h.fresh a y hy

theorem mem_free {m a : MapId} {c : ConnId} {l : BankList} :
    a ∈ (b.free m).maps c l ↔ a ∈ b.maps c l ∧ a ≠ m := by
  simp [free]

theorem hide_wf {m : MapId} (h : b.toSlotmaps.Wf) : (b.hide m).toSlotmaps.Wf where
  nodup := h.nodup.filter _
  alloc a ha := h.alloc a (List.mem_of_mem_filter ha)
  bank a ha a' ha' := h.bank a (List.mem_of_mem_filter ha) a' (List.mem_of_mem_filter ha')
  client a ha a' ha' := h.client a (List.mem_of_mem_filter ha) a' (List.mem_of_mem_filter ha')
  fresh := h.fresh

/-! ### The invariant -/

variable (b)

/-- The bookkeeping invariant. -/
structure Inv : Prop where
  wf : b.toSlotmaps.Wf
  linked : ∀ c l m, m ∈ b.maps c l → ∃ x, b.heap m = some x ∧ x.state = l.state ∧
    b.bankOf c = some x.bank.bankId
  nodup : ∀ c l, (b.maps c l).Nodup
  bankUnique : ∀ c c' i, b.bankOf c = some i → b.bankOf c' = some i → c = c'
  placed : ∀ m x, b.heap m = some x → x.state ≠ .new → ∃ c l, m ∈ b.maps c l
  queued : ∀ m x c, m ∈ b.mappings → b.heap m = some x → x.state = .new →
    b.bankOf c = some x.bank.bankId → m ∈ b.maps c .mapsNew

variable {b}

/-- The part of the invariant that holds between the critical sections of a step as well: a mapping
is linked where its state and its bank say, and only there. -/
structure Neat (b : Book) : Prop where
  wf : b.toSlotmaps.Wf
  linked : ∀ c l m, m ∈ b.maps c l → ∃ x, b.heap m = some x ∧ x.state = l.state ∧
    b.bankOf c = some x.bank.bankId
  nodup : ∀ c l, (b.maps c l).Nodup
  bankUnique : ∀ c c' i, b.bankOf c = some i → b.bankOf c' = some i → c = c'

theorem Inv.neat (h : b.Inv) : b.Neat := ⟨h.wf, h.linked, h.nodup, h.bankUnique⟩

theorem Neat.unique (h : b.Neat) {c c' : ConnId} {l l' : BankList} {m : MapId}
    (hm : m ∈ b.maps c l) (hm' : m ∈ b.maps c' l') : c = c' ∧ l = l' := by
  obtain ⟨x, hx, hst, hb⟩ := h.linked c l m hm
  obtain ⟨x', hx', hst', hb'⟩ := h.linked c' l' m hm'
  rw [hx] at hx'
  obtain rfl := Option.some.inj hx'
  exact ⟨h.bankUnique c c' _ hb hb', BankList.state_injective (hst.symm.trans hst')⟩

theorem Inv.unique (h : b.Inv) {c c' : ConnId} {l l' : BankList} {m : MapId}
    (hm : m ∈ b.maps c l) (hm' : m ∈ b.maps c' l') : c = c' ∧ l = l' := h.neat.unique hm hm'

theorem Inv.mem_of_state (h : b.Inv) {m : MapId} {x : SlotMapping} {l : BankList}
    (hx : b.heap m = some x) (hl : x.state = l.state) (hne : l ≠ .mapsNew) :
    ∃ c, m ∈ b.maps c l ∧ b.bankOf c = some x.bank.bankId := by
  have hnew : x.state ≠ .new := hl ▸ BankList.state_ne_new hne
  obtain ⟨c, l', hm⟩ := h.placed m x hx hnew
  obtain ⟨y, hy, hst, hb⟩ := h.linked c l' m hm
  rw [hx] at hy
  obtain rfl := Option.some.inj hy
  obtain rfl : l' = l := BankList.state_injective (hst.symm.trans hl)
  exact ⟨c, hm, hb⟩

theorem Inv.state_of_mem (h : b.Inv) {m : MapId} {x : SlotMapping} {c : ConnId} {l : BankList}
    (hm : m ∈ b.maps c l) (hx : b.heap m = some x) : x.state = l.state := by
  obtain ⟨y, hy, hst, _⟩ := h.linked c l m hm
  rw [hx] at hy
  obtain rfl := Option.some.inj hy
  exact hst

theorem Neat.heap_of_mem (h : b.Neat) {m : MapId} {c : ConnId} {l : BankList}
    (hm : m ∈ b.maps c l) : ∃ x, b.heap m = some x := by
  obtain ⟨x, hx, _⟩ := h.linked c l m hm
  exact ⟨x, hx⟩

theorem Inv.heap_of_mem (h : b.Inv) {m : MapId} {c : ConnId} {l : BankList}
    (hm : m ∈ b.maps c l) : ∃ x, b.heap m = some x := h.neat.heap_of_mem hm

theorem Neat.maps_eq_nil (h : b.Neat) {c : ConnId} (hc : b.bankOf c = none) (l : BankList) :
    b.maps c l = [] := by
  rw [List.eq_nil_iff_forall_not_mem]
  intro m hm
  obtain ⟨x, _, _, hb⟩ := h.linked c l m hm
  rw [hc] at hb
  cases hb

theorem Inv.maps_eq_nil (h : b.Inv) {c : ConnId} (hc : b.bankOf c = none) (l : BankList) :
    b.maps c l = [] := h.neat.maps_eq_nil hc l

/-! ### Changes of lifecycle state -/

/-- A mapping may be linked to the list of its bank that the new state stands for, or be unlinked
in any state. -/
theorem Neat.stateChange (h : b.Neat) {m : MapId} {st : SlotMappingState}
    {dst : Option (ConnId × BankList)}
    (hd : ∀ c l, dst = some (c, l) → st = l.state ∧
      ∃ x, b.heap m = some x ∧ b.bankOf c = some x.bank.bankId) :
    (b.stateChange m st dst).Neat := by
  refine ⟨slotmaps_stateChange_wf h.wf, ?_, ?_, h.bankUnique⟩
  · intro c l a ha
    rcases mem_stateChange.mp ha with ⟨ha, hne⟩ | ⟨rfl, he⟩
    · rw [stateChange_heap_of_ne hne]
      exact h.linked c l a ha
    · obtain ⟨hst, x, hx, hb⟩ := hd c l he
      exact ⟨{ x with state := st }, by rw [stateChange_heap_self, hx]; rfl, hst, hb⟩
  · intro c l
    simp only [Book.stateChange]
    split_ifs
    · rw [List.nodup_append]
      refine ⟨(h.nodup c l).filter _, List.nodup_singleton m, ?_⟩
      intro a ha a' ha' e
      rw [List.mem_singleton.mp ha'] at e
      simp [e] at ha
    · simpa using (h.nodup c l).filter _

theorem Neat.free (h : b.Neat) (m : MapId) : (b.free m).Neat := by
  refine ⟨h.wf.slotmapDel m, ?_, fun c l => (h.nodup c l).filter _, h.bankUnique⟩
  intro c l a ha
  obtain ⟨ha, hne⟩ := mem_free.mp ha
  obtain ⟨x, hx, hr⟩ := h.linked c l a ha
  exact ⟨x, (Slotmaps.slotmapDel_heap_of_ne hne).trans hx, hr⟩

theorem Neat.setBank (h : b.Neat) {c : ConnId} (hnil : ∀ l, b.maps c l = []) {id : Option UInt16}
    (hid : ∀ i ∈ id, ∀ k, b.bankOf k ≠ some i) : (b.setBank c id).Neat := by
  refine ⟨h.wf, fun k l m hm => ?_, h.nodup, fun k k' i hk hk' => ?_⟩
  · have hne : k ≠ c := by
      rintro rfl
      have hm' : m ∈ b.maps k l := hm
      rw [hnil] at hm'
      cases hm'
    obtain ⟨x, hx, hst, hb⟩ := h.linked k l m hm
    exact ⟨x, hx, hst, by rw [← hb]; exact Function.update_of_ne hne _ _⟩
  · change Function.update b.bankOf c id k = some i at hk
    change Function.update b.bankOf c id k' = some i at hk'
    by_cases e : k = c <;> by_cases e' : k' = c
    · rw [e, e']
    · rw [e, Function.update_self] at hk
      rw [Function.update_of_ne e'] at hk'
      exact absurd hk' (hid i hk k')
    · rw [e', Function.update_self] at hk'
      rw [Function.update_of_ne e] at hk
      exact absurd hk (hid i hk' k)
    · rw [Function.update_of_ne e] at hk
      rw [Function.update_of_ne e'] at hk'
      exact h.bankUnique k k' i hk hk'

/-- A mapping of free slots is inserted. -/
theorem Neat.alloc (h : b.Neat) {bank : BankSlot} {client : ClientSlot}
    (hb : b.slotmapByBank bank = none) (hc : b.slotmapByClient client = none) :
    ({ b with toSlotmaps := b.alloc bank client } : Book).Neat := by
  have hadd : b.slotmapAdd bank client = some (b.next, b.alloc bank client) :=
    (b.slotmapAdd_eq_some).mpr ⟨hb, hc, rfl⟩
  refine ⟨h.wf.slotmapAdd hadd, fun k l m hm => ?_, h.nodup, h.bankUnique⟩
  obtain ⟨x, hx, hr⟩ := h.linked k l m hm
  exact ⟨x, (Slotmaps.alloc_heap_of_ne (Nat.ne_of_lt (h.wf.fresh m x hx))).trans hx, hr⟩

theorem Neat.move (h : b.Neat) {c : ConnId} {l t : BankList} {m : MapId} (hm : m ∈ b.maps c l) :
    (b.stateChange m t.state (some (c, t))).Neat := by
  obtain ⟨x, hx, _, hb⟩ := h.linked c l m hm
  refine h.stateChange fun c' l' e => ?_
  obtain ⟨rfl, rfl⟩ := Prod.mk.inj (Option.some.inj e)
  exact ⟨rfl, x, hx, hb⟩

theorem Inv.move (h : b.Inv) {c : ConnId} {l t : BankList} {m : MapId} (hm : m ∈ b.maps c l)
    (ht : t ≠ .mapsNew) : (b.stateChange m t.state (some (c, t))).Inv := by
  have hn : (b.stateChange m t.state (some (c, t))).Neat := h.neat.move hm
  obtain ⟨x, hx, _, _⟩ := h.linked c l m hm
  have hnew : t.state ≠ .new := BankList.state_ne_new ht
  refine ⟨hn.wf, hn.linked, hn.nodup, hn.bankUnique, ?_, ?_⟩
  · intro a y hy hny
    by_cases he : a = m
    · exact ⟨c, t, mem_stateChange.mpr (.inr ⟨he, rfl⟩)⟩
    · rw [stateChange_heap_of_ne he] at hy
      obtain ⟨c₁, l₁, ha⟩ := h.placed a y hy hny
      exact ⟨c₁, l₁, mem_stateChange.mpr (.inl ⟨ha, he⟩)⟩
  · intro a y c₁ ha hy hsy hby
    by_cases he : a = m
    · subst he
      rw [stateChange_heap_self, hx] at hy
      rw [← Option.some.inj hy] at hsy
      exact absurd hsy hnew
    · rw [stateChange_heap_of_ne he] at hy
      exact mem_stateChange.mpr (.inl ⟨h.queued a y c₁ ha hy hsy hby, he⟩)

theorem Inv.free (h : b.Inv) (m : MapId) : (b.free m).Inv := by
  have hn := h.neat.free m
  refine ⟨hn.wf, hn.linked, hn.nodup, hn.bankUnique, ?_, ?_⟩
  · intro a x hx hst
    by_cases he : a = m
    · subst he
      exact absurd hx (by simp [Book.free])
    · obtain ⟨c, l, ha⟩ := h.placed a x ((Slotmaps.slotmapDel_heap_of_ne he).symm.trans hx) hst
      exact ⟨c, l, mem_free.mpr ⟨ha, he⟩⟩
  · intro a x c ha hx hst hb
    obtain ⟨ha, hne⟩ := Slotmaps.mem_slotmapDel.mp ha
    have hx' := (Slotmaps.slotmapDel_heap_of_ne hne).symm.trans hx
    exact mem_free.mpr ⟨h.queued a x c ha hx' hst hb, hne⟩

theorem Inv.hide (h : b.Inv) (m : MapId) : (b.hide m).Inv :=
  ⟨hide_wf h.wf, h.linked, h.nodup, h.bankUnique, h.placed,
    fun a x c ha => h.queued a x c (List.mem_of_mem_filter ha)⟩

/-! ### Loops over lists -/

@[simp] theorem moveAll_nil (c : ConnId) (l : BankList) : b.moveAll c l [] = b := rfl

@[simp] theorem moveAll_cons (c : ConnId) (l : BankList) (m : MapId) (ms : List MapId) :
    b.moveAll c l (m :: ms) = (b.stateChange m l.state (some (c, l))).moveAll c l ms := rfl

theorem moveAll_mappings (c : ConnId) (l : BankList) :
    ∀ (ms : List MapId) (b : Book), (b.moveAll c l ms).mappings = b.mappings
  | [], _ => rfl
  | m :: ms, b => by rw [moveAll_cons, moveAll_mappings c l ms]; rfl

theorem moveAll_next (c : ConnId) (l : BankList) :
    ∀ (ms : List MapId) (b : Book), (b.moveAll c l ms).next = b.next
  | [], _ => rfl
  | m :: ms, b => by rw [moveAll_cons, moveAll_next c l ms]; rfl

theorem moveAll_bankOf (c : ConnId) (l : BankList) :
    ∀ (ms : List MapId) (b : Book), (b.moveAll c l ms).bankOf = b.bankOf
  | [], _ => rfl
  | m :: ms, b => by rw [moveAll_cons, moveAll_bankOf c l ms]; rfl

/-- The moved mappings stand at the end of the target list, in their order. -/
theorem moveAll_maps (c : ConnId) (l : BankList) :
    ∀ (ms : List MapId) (b : Book), ms.Nodup → ∀ k l', (b.moveAll c l ms).maps k l' =
      (b.maps k l').filter (· ∉ ms) ++ (if some (c, l) = some (k, l') then ms else [])
  | [], b, _, k, l' => by simp
  | m :: ms, b, hnd, k, l' => by
      obtain ⟨hm, hnd⟩ := List.nodup_cons.mp hnd
      rw [moveAll_cons, moveAll_maps c l ms _ hnd]
      rw [ListLib.filter_not_mem_cons]
      simp only [stateChange, List.filter_append]
      split_ifs with h
      · simp [hm]
      · simp

theorem moveAll_heap (c : ConnId) (l : BankList) :
    ∀ (ms : List MapId) (b : Book) (a : MapId), (b.moveAll c l ms).heap a =
      if a ∈ ms then (b.heap a).map (fun x => { x with state := l.state }) else b.heap a
  | [], _, _ => by simp
  | m :: ms, b, a => by
      rw [moveAll_cons, moveAll_heap c l ms]
      by_cases ha : a = m
      · subst ha
        rw [stateChange_heap_self]
        cases b.heap a <;> simp
      · rw [stateChange_heap_of_ne ha]
        simp [ha]

theorem mem_move {c : ConnId} {l : BankList} {m a : MapId} (h : ∃ l₀, a ∈ b.maps c l₀) :
    ∃ l₀, a ∈ (b.stateChange m l.state (some (c, l))).maps c l₀ := by
  obtain ⟨l₁, ha⟩ := h
  by_cases he : a = m
  · exact ⟨l, mem_stateChange.mpr (.inr ⟨he, rfl⟩)⟩
  · exact ⟨l₁, mem_stateChange.mpr (.inl ⟨ha, he⟩)⟩

theorem Neat.moveAll {c : ConnId} {l : BankList} :
    ∀ (ms : List MapId) (b : Book), b.Neat → (∀ m ∈ ms, ∃ l₀, m ∈ b.maps c l₀) →
      (b.moveAll c l ms).Neat
  | [], _, h, _ => h
  | m :: ms, b, h, hms => by
      obtain ⟨l₀, hm⟩ := hms m List.mem_cons_self
      rw [moveAll_cons]
      refine Neat.moveAll ms _ (h.move hm) ?_
      intro a ha
      exact mem_move (hms a (List.mem_cons_of_mem _ ha))

theorem Inv.moveAll {c : ConnId} {l : BankList} (hl : l ≠ .mapsNew) :
    ∀ (ms : List MapId) (b : Book), b.Inv → (∀ m ∈ ms, ∃ l₀, m ∈ b.maps c l₀) →
      (b.moveAll c l ms).Inv
  | [], _, h, _ => h
  | m :: ms, b, h, hms => by
      obtain ⟨l₀, hm⟩ := hms m List.mem_cons_self
      rw [moveAll_cons]
      refine Inv.moveAll hl ms _ (h.move hm hl) ?_
      intro a ha
      exact mem_move (hms a (List.mem_cons_of_mem _ ha))

theorem unlinkNew_spec :
    ∀ (ms : List MapId) (b : Book), (b.unlinkNew ms).mappings = b.mappings ∧
      (b.unlinkNew ms).next = b.next ∧ (b.unlinkNew ms).bankOf = b.bankOf ∧
      (∀ k l, (b.unlinkNew ms).maps k l = (b.maps k l).filter (· ∉ ms)) ∧
      ∀ a, (b.unlinkNew ms).heap a =
        if a ∈ ms then (b.heap a).map (fun x => { x with state := .new }) else b.heap a
  | [], b => by simp [unlinkNew]
  | m :: ms, b => by
      obtain ⟨h1, h2, h3, h4, h5⟩ := unlinkNew_spec ms (b.stateChange m .new none)
      refine ⟨h1, h2, h3, fun k l => (h4 k l).trans ?_, fun a => (h5 a).trans ?_⟩
      · simp only [stateChange, reduceCtorEq, if_false, List.append_nil,
          ListLib.filter_not_mem_cons]
      · by_cases ha : a = m
        · subst ha
          rw [stateChange_heap_self]
          cases b.heap a <;> simp
        · rw [stateChange_heap_of_ne ha]
          simp [ha]

theorem freeAll_spec :
    ∀ (ms : List MapId) (b : Book), (b.freeAll ms).mappings = b.mappings.filter (· ∉ ms) ∧
      (b.freeAll ms).next = b.next ∧ (b.freeAll ms).bankOf = b.bankOf ∧
      (∀ k l, (b.freeAll ms).maps k l = (b.maps k l).filter (· ∉ ms)) ∧
      ∀ a, (b.freeAll ms).heap a = if a ∈ ms then none else b.heap a
  | [], b => by simp [freeAll]
  | m :: ms, b => by
      obtain ⟨h1, h2, h3, h4, h5⟩ := freeAll_spec ms (b.free m)
      refine ⟨h1.trans ?_, h2, h3, fun k l => (h4 k l).trans ?_, fun a => (h5 a).trans ?_⟩
      · rw [ListLib.filter_not_mem_cons]; rfl
      · rw [ListLib.filter_not_mem_cons]; rfl
      · by_cases ha : a = m
        · subst ha; simp [free]
        · simp [free, Slotmaps.slotmapDel_heap_of_ne ha, ha]

/-! ### Pushing -/

theorem Neat.not_mem_other (h : b.Neat) {c : ConnId} {l l' : BankList} (hne : l ≠ l') :
    ∀ m ∈ b.maps c l, m ∉ b.maps c l' :=
  fun _ hm hm' => hne (h.unique hm hm').2

theorem Inv.not_mem_other (h : b.Inv) {c : ConnId} {l l' : BankList} (hne : l ≠ l') :
    ∀ m ∈ b.maps c l, m ∉ b.maps c l' := h.neat.not_mem_other hne

theorem Neat.not_mem_conn (h : b.Neat) {c c' : ConnId} {l l' : BankList} (hne : c ≠ c') :
    ∀ m ∈ b.maps c l, m ∉ b.maps c' l' :=
  fun _ hm hm' => hne (h.unique hm hm').1

/-- `maps_new` is appended to `maps_unack` and `maps_delreq` to `maps_deleting`; no other list
changes. -/
theorem Neat.push_maps (h : b.Neat) (c : ConnId) (k : ConnId) (l : BankList) :
    (b.push c).maps k l =
      if k = c then
        match l with
        | .mapsNew => []
        | .mapsUnack => b.maps c .mapsUnack ++ b.maps c .mapsNew
        | .mapsActive => b.maps c .mapsActive
        | .mapsDelreq => []
        | .mapsDeleting => b.maps c .mapsDeleting ++ b.maps c .mapsDelreq
      else b.maps k l := by
  have h1 := moveAll_maps c .mapsUnack _ b (h.nodup c .mapsNew)
  have hdel : (b.moveAll c .mapsUnack (b.maps c .mapsNew)).maps c .mapsDelreq =
      b.maps c .mapsDelreq := by
    rw [h1, if_neg (by simp), List.append_nil]
    exact ListLib.filter_not_mem_of_disjoint (h.not_mem_other (by decide))
  have hpush : b.push c = (b.moveAll c .mapsUnack (b.maps c .mapsNew)).moveAll c .mapsDeleting
      (b.maps c .mapsDelreq) := by
    conv_rhs => rw [← hdel]
    rfl
  rw [hpush, moveAll_maps c .mapsDeleting _ _ (h.nodup c .mapsDelreq), h1]
  have keep : ∀ (l l' : BankList), l ≠ l' →
      (b.maps c l).filter (· ∉ b.maps c l') = b.maps c l :=
    fun l l' hne => ListLib.filter_not_mem_of_disjoint (h.not_mem_other hne)
  by_cases hk : k = c
  · subst hk
    cases l <;> simp (disch := decide) only [keep, ListLib.filter_not_mem_self, List.filter_append,
      Option.some.injEq, Prod.mk.injEq, true_and, reduceCtorEq, if_true, if_false,
      List.append_nil, List.filter_nil]
  · have other : ∀ l', (b.maps k l).filter (· ∉ b.maps c l') = b.maps k l :=
      fun l' => ListLib.filter_not_mem_of_disjoint (h.not_mem_conn hk)
    have hck : ¬ c = k := fun e => hk e.symm
    simp only [hk, hck, other, Option.some.injEq, Prod.mk.injEq, false_and, if_false,
      List.append_nil]

theorem Inv.push_maps (h : b.Inv) (c : ConnId) (k : ConnId) (l : BankList) :
    (b.push c).maps k l =
      if k = c then
        match l with
        | .mapsNew => []
        | .mapsUnack => b.maps c .mapsUnack ++ b.maps c .mapsNew
        | .mapsActive => b.maps c .mapsActive
        | .mapsDelreq => []
        | .mapsDeleting => b.maps c .mapsDeleting ++ b.maps c .mapsDelreq
      else b.maps k l := h.neat.push_maps c k l

theorem push_mappings (c : ConnId) : (b.push c).mappings = b.mappings := by
  rw [push, moveAll_mappings, moveAll_mappings]

theorem push_bankOf (c : ConnId) : (b.push c).bankOf = b.bankOf := by
  rw [push, moveAll_bankOf, moveAll_bankOf]

theorem Neat.push (h : b.Neat) (c : ConnId) : (b.push c).Neat := by
  refine Neat.moveAll _ _ (Neat.moveAll _ _ h ?_) ?_
  · intro m hm
    exact ⟨_, hm⟩
  · intro m hm
    exact ⟨_, hm⟩

theorem Inv.push (h : b.Inv) (c : ConnId) : (b.push c).Inv := by
  refine Inv.moveAll (by decide) _ _ (Inv.moveAll (by decide) _ _ h ?_) ?_
  · intro m hm
    exact ⟨_, hm⟩
  · intro m hm
    exact ⟨_, hm⟩

/-! ### Loss of a bank -/

/-- The mapping is on a list of the connection whose mappings `_unlink_all_slotmaps()` frees. -/
def Doomed (b : Book) (c : ConnId) (m : MapId) : Prop :=
  m ∈ b.maps c .mapsDelreq ∨ m ∈ b.maps c .mapsDeleting

instance (b : Book) (c : ConnId) (m : MapId) : Decidable (b.Doomed c m) :=
  inferInstanceAs (Decidable (_ ∨ _))

/-- The mapping is on one of the three lists whose mappings return to `NEW`. -/
def Retained (b : Book) (c : ConnId) (m : MapId) : Prop :=
  m ∈ b.maps c .mapsNew ∨ m ∈ b.maps c .mapsUnack ∨ m ∈ b.maps c .mapsActive

instance (b : Book) (c : ConnId) (m : MapId) : Decidable (b.Retained c m) :=
  inferInstanceAs (Decidable (_ ∨ _))

theorem Neat.unlinkAll_spec (h : b.Neat) (c : ConnId) :
    (b.unlinkAll c).mappings = b.mappings.filter (fun m => ¬ b.Doomed c m) ∧
      (b.unlinkAll c).next = b.next ∧ (b.unlinkAll c).bankOf = b.bankOf ∧
      (∀ k l, (b.unlinkAll c).maps k l = if k = c then [] else b.maps k l) ∧
      ∀ m, (b.unlinkAll c).heap m =
        if b.Doomed c m then none
        else if b.Retained c m then (b.heap m).map (fun x => { x with state := .new })
        else b.heap m := by
  have keep : ∀ (l l' : BankList), l ≠ l' →
      (b.maps c l).filter (· ∉ b.maps c l') = b.maps c l :=
    fun l l' hne => ListLib.filter_not_mem_of_disjoint (h.not_mem_other hne)
  obtain ⟨f1, n1, o1, p1, q1⟩ := unlinkNew_spec (b.maps c .mapsNew) b
  generalize e1 : b.unlinkNew (b.maps c .mapsNew) = b1 at f1 n1 o1 p1 q1
  have u1 : b1.maps c .mapsUnack = b.maps c .mapsUnack := by rw [p1, keep _ _ (by decide)]
  obtain ⟨f2, n2, o2, p2, q2⟩ := unlinkNew_spec (b.maps c .mapsUnack) b1
  generalize e2 : b1.unlinkNew (b.maps c .mapsUnack) = b2 at f2 n2 o2 p2 q2
  have u2 : b2.maps c .mapsActive = b.maps c .mapsActive := by
    rw [p2, p1, keep _ _ (by decide), keep _ _ (by decide)]
  obtain ⟨f3, n3, o3, p3, q3⟩ := unlinkNew_spec (b.maps c .mapsActive) b2
  generalize e3 : b2.unlinkNew (b.maps c .mapsActive) = b3 at f3 n3 o3 p3 q3
  have u3 : b3.maps c .mapsDelreq = b.maps c .mapsDelreq := by
    rw [p3, p2, p1, keep _ _ (by decide), keep _ _ (by decide), keep _ _ (by decide)]
  obtain ⟨f4, n4, o4, p4, q4⟩ := freeAll_spec (b.maps c .mapsDelreq) b3
  generalize e4 : b3.freeAll (b.maps c .mapsDelreq) = b4 at f4 n4 o4 p4 q4
  have u4 : b4.maps c .mapsDeleting = b.maps c .mapsDeleting := by
    rw [p4, p3, p2, p1, keep _ _ (by decide), keep _ _ (by decide), keep _ _ (by decide),
      keep _ _ (by decide)]
  obtain ⟨f5, n5, o5, p5, q5⟩ := freeAll_spec (b.maps c .mapsDeleting) b4
  have e : b.unlinkAll c = b4.freeAll (b.maps c .mapsDeleting) := by
    simp only [unlinkAll, e1, u1, e2, u2, e3, u3, e4, u4]
  rw [e]
  refine ⟨?_, by rw [n5, n4, n3, n2, n1], by rw [o5, o4, o3, o2, o1], ?_, ?_⟩
  · rw [f5, f4, f3, f2, f1, List.filter_filter]
    exact List.filter_congr fun a _ => by simp [Doomed, Bool.and_comm]
  · intro k l
    rw [p5, p4, p3, p2, p1]
    by_cases hk : k = c
    · subst hk
      rw [if_pos rfl, List.eq_nil_iff_forall_not_mem]
      intro a ha
      cases l <;> simp [List.mem_filter] at ha <;> grind
    · have other : ∀ l', (b.maps k l).filter (· ∉ b.maps c l') = b.maps k l :=
        fun l' => ListLib.filter_not_mem_of_disjoint (h.not_mem_conn hk)
      simp only [other, hk, if_false]
  · intro m
    rw [q5, q4, q3, q2, q1]
    unfold Doomed Retained
    by_cases hD : m ∈ b.maps c .mapsDeleting <;> by_cases hR : m ∈ b.maps c .mapsDelreq <;>
      simp only [hD, hR, if_true, if_false, or_true, or_false]
    by_cases hA : m ∈ b.maps c .mapsActive <;> by_cases hU : m ∈ b.maps c .mapsUnack <;>
      by_cases hN : m ∈ b.maps c .mapsNew <;> simp [hA, hU, hN, Function.comp_def]

theorem Inv.unlinkAll_spec (h : b.Inv) (c : ConnId) :
    (b.unlinkAll c).mappings = b.mappings.filter (fun m => ¬ b.Doomed c m) ∧
      (b.unlinkAll c).next = b.next ∧ (b.unlinkAll c).bankOf = b.bankOf ∧
      (∀ k l, (b.unlinkAll c).maps k l = if k = c then [] else b.maps k l) ∧
      ∀ m, (b.unlinkAll c).heap m =
        if b.Doomed c m then none
        else if b.Retained c m then (b.heap m).map (fun x => { x with state := .new })
        else b.heap m := h.neat.unlinkAll_spec c

theorem Neat.unlinkNew : ∀ (ms : List MapId) {b : Book}, b.Neat → (b.unlinkNew ms).Neat
  | [], _, h => h
  | m :: ms, b, h => by
      have hm : (b.stateChange m .new none).Neat := h.stateChange nofun
      exact Neat.unlinkNew ms hm

theorem Neat.freeAll : ∀ (ms : List MapId) {b : Book}, b.Neat → (b.freeAll ms).Neat
  | [], _, h => h
  | m :: ms, _, h => Neat.freeAll ms (h.free m)

theorem Neat.unlinkAll (h : b.Neat) (c : ConnId) : (b.unlinkAll c).Neat :=
  .freeAll _ (.freeAll _ (.unlinkNew _ (.unlinkNew _ (.unlinkNew _ h))))

theorem Inv.drop (h : b.Inv) (c : ConnId) : (b.drop c).Inv := by
  obtain ⟨f, _, o, p, q⟩ := h.unlinkAll_spec c
  have hbank : ∀ k i, (b.drop c).bankOf k = some i →
      k ≠ c ∧ b.bankOf k = some i := by
    intro k i hk
    simp only [Book.drop, setBank, o] at hk
    by_cases e : k = c
    · subst e; simp at hk
    · rw [Function.update_of_ne e] at hk
      exact ⟨e, hk⟩
  have hheap : ∀ m x, (b.unlinkAll c).heap m = some x → ∃ y, b.heap m = some y ∧
      y.slots = x.slots ∧ ((b.Retained c m ∧ x.state = .new) ∨ (¬ b.Retained c m ∧
        ¬ b.Doomed c m ∧ x = y)) := by
    intro m x hx
    rw [q] at hx
    split_ifs at hx with hD hR
    · obtain ⟨y, hy, rfl⟩ := Option.map_eq_some_iff.mp hx
      exact ⟨y, hy, rfl, .inl ⟨hR, rfl⟩⟩
    · exact ⟨x, hx, rfl, .inr ⟨hR, hD, rfl⟩⟩
  -- a mapping that is neither retained nor freed is not on a list of `c`
  have hoff : ∀ m l, ¬ b.Retained c m → ¬ b.Doomed c m → m ∉ b.maps c l := by
    intro m l hR hD hm
    cases l
    · exact hR (.inl hm)
    · exact hR (.inr (.inl hm))
    · exact hR (.inr (.inr hm))
    · exact hD (.inl hm)
    · exact hD (.inr hm)
  have hneat : (b.drop c).Neat := by
    refine (h.neat.unlinkAll c).setBank (fun l => ?_) nofun
    rw [p, if_pos rfl]
  refine ⟨hneat.wf, hneat.linked, hneat.nodup, hneat.bankUnique, ?_, ?_⟩
  · intro m x hx hst
    obtain ⟨y, hy, _, ⟨_, hnew⟩ | ⟨hR, hD, rfl⟩⟩ := hheap m x hx
    · exact absurd hnew hst
    · obtain ⟨k, l, hm⟩ := h.placed m x hy hst
      have hk : k ≠ c := fun e => hoff m l hR hD (e ▸ hm)
      refine ⟨k, l, ?_⟩
      show m ∈ (b.unlinkAll c).maps k l
      rw [p, if_neg hk]
      exact hm
  · intro m x k hm hx hst hb
    obtain ⟨hk, hb⟩ := hbank k _ hb
    obtain ⟨y, hy, hs, hcase⟩ := hheap m x hx
    show m ∈ (b.unlinkAll c).maps k .mapsNew
    rw [p, if_neg hk]
    rcases hcase with ⟨hR, _⟩ | ⟨hR, hD, rfl⟩
    · -- a mapping of the lost bank belongs to no other connection
      exfalso
      have hbc : b.bankOf c = some y.bank.bankId := by
        rcases hR with hr | hr | hr <;>
          (obtain ⟨z, hz, _, hbz⟩ := h.linked c _ m hr
           rw [hy] at hz
           rw [hbz, ← Option.some.inj hz])
      have hbank' : x.bank = y.bank := (congrArg Prod.fst hs).symm
      rw [hbank'] at hb
      exact hk (h.bankUnique k c _ hb hbc)
    · change m ∈ (b.unlinkAll c).mappings at hm
      rw [f] at hm
      exact h.queued m x k (List.mem_of_mem_filter hm) hy hst hb

/-! ### New mappings -/

theorem post_of_none {bank : BankSlot} {client : ClientSlot} (h : b.slotmapAdd bank client = none)
    (dst : Option ConnId) : b.post bank client dst = b := by
  unfold post
  rw [h]

theorem Inv.post_spec (h : b.Inv) {bank : BankSlot} {client : ClientSlot} {r : MapId × Slotmaps}
    (ha : b.slotmapAdd bank client = some r) (dst : Option ConnId) :
    (b.post bank client dst).toSlotmaps = b.toSlotmaps.alloc bank client ∧
      (b.post bank client dst).bankOf = b.bankOf ∧
      ∀ k l, (b.post bank client dst).maps k l =
        b.maps k l ++ (if dst = some k ∧ l = .mapsNew then [b.next] else []) := by
  obtain ⟨_, _, rfl⟩ := b.slotmapAdd_eq_some.mp ha
  have hoff : ∀ k l, (b.maps k l).filter (· ≠ b.next) = b.maps k l := by
    intro k l
    refine ListLib.filter_ne_of_not_mem fun hm => ?_
    obtain ⟨x, hx⟩ := h.heap_of_mem hm
    exact Nat.lt_irrefl _ (h.wf.fresh _ x hx)
  unfold post
  rw [ha]
  cases dst with
  | none =>
      refine ⟨?_, rfl, fun k l => ?_⟩
      · simp [stateChange, Slotmaps.alloc]
      · simp only [stateChange, hoff, reduceCtorEq, if_false, false_and]
  | some c =>
      refine ⟨?_, rfl, fun k l => ?_⟩
      · simp [stateChange, Slotmaps.alloc]
      · simp only [stateChange, hoff, reduceCtorEq, if_false, List.append_nil, Option.some.injEq,
          Prod.mk.injEq, eq_comm (a := BankList.mapsNew)]

theorem Neat.post (h : b.Neat) (bank : BankSlot) (client : ClientSlot) {dst : Option ConnId}
    (hdst : ∀ k, dst = some k → b.bankOf k = some bank.bankId) :
    (b.post bank client dst).Neat := by
  cases ha : b.slotmapAdd bank client with
  | none => rw [post_of_none ha]; exact h
  | some r =>
      obtain ⟨hb, hc, rfl⟩ := b.slotmapAdd_eq_some.mp ha
      have hn : (({ b with toSlotmaps := b.alloc bank client } : Book).stateChange b.next .new
          none).Neat := (h.alloc hb hc).stateChange nofun
      unfold Book.post
      rw [ha]
      cases dst with
      | none => exact hn
      | some c =>
          refine hn.stateChange fun c' l e => ?_
          obtain ⟨rfl, rfl⟩ := Prod.mk.inj (Option.some.inj e)
          refine ⟨rfl, ⟨bank, client, .new⟩, ?_, hdst c rfl⟩
          rw [stateChange_heap_self, Slotmaps.alloc_heap_next]
          rfl

theorem Inv.post (h : b.Inv) (bank : BankSlot) (client : ClientSlot) {dst : Option ConnId}
    (hdst : ∀ k, dst = some k ↔ b.bankOf k = some bank.bankId) :
    (b.post bank client dst).Inv := by
  have hneat := h.neat.post bank client fun k => (hdst k).mp
  cases ha : b.slotmapAdd bank client with
  | none => rw [post_of_none ha]; exact h
  | some r =>
      obtain ⟨hsm, hbk, hmaps⟩ := h.post_spec ha dst
      have hmem : ∀ k l m, m ∈ (b.post bank client dst).maps k l ↔
          m ∈ b.maps k l ∨ (m = b.next ∧ dst = some k ∧ l = .mapsNew) := by
        intro k l m
        rw [hmaps, List.mem_append]
        split_ifs with hc <;> simp [hc]
      have hheap : ∀ m, m ≠ b.next → (b.post bank client dst).heap m = b.heap m := by
        intro m hm
        rw [hsm]
        exact Slotmaps.alloc_heap_of_ne hm
      have hnew : (b.post bank client dst).heap b.next = some ⟨bank, client, .new⟩ := by
        rw [hsm]
        exact Slotmaps.alloc_heap_next bank client
      refine ⟨hneat.wf, hneat.linked, hneat.nodup, hneat.bankUnique, ?_, ?_⟩
      · intro m x hx hst
        by_cases hm : m = b.next
        · subst hm
          rw [hnew] at hx
          rw [← Option.some.inj hx] at hst
          exact absurd rfl hst
        · rw [hheap m hm] at hx
          obtain ⟨k, l, hp⟩ := h.placed m x hx hst
          exact ⟨k, l, (hmem k l m).mpr (.inl hp)⟩
      · intro m x k hm hx hst hb
        rw [hbk] at hb
        by_cases he : m = b.next
        · subst he
          rw [hnew] at hx
          rw [← Option.some.inj hx] at hb
          exact (hmem k _ _).mpr (.inr ⟨rfl, (hdst k).mpr hb, rfl⟩)
        · rw [hheap m he] at hx
          rw [hsm] at hm
          rcases h.wf.alloc_mem hm with ⟨_, hm, _⟩ | ⟨e, _⟩
          · exact (hmem k _ m).mpr (.inl (h.queued m x k hm hx hst hb))
          · exact absurd e he

/-! ### Deletion requests -/

theorem mark_none {conn : UInt16 → Option ConnId} {m : MapId} (hx : b.heap m = none) :
    b.mark conn m = b := by
  simp only [Book.mark, hx]

theorem mark_new {conn : UInt16 → Option ConnId} {m : MapId} {x : SlotMapping}
    (hx : b.heap m = some x) (hst : x.state = .new) : b.mark conn m = (b.hide m).free m := by
  simp only [Book.mark, hx, hst]

theorem mark_active {conn : UInt16 → Option ConnId} {m : MapId} {x : SlotMapping} {c : ConnId}
    (hx : b.heap m = some x) (hst : x.state = .active) (hc : conn x.bank.bankId = some c) :
    b.mark conn m = (b.hide m).stateChange m .deleteReq (some (c, .mapsDelreq)) := by
  simp only [Book.mark, hx, hst, hc]

theorem mark_other {conn : UInt16 → Option ConnId} {m : MapId} {x : SlotMapping}
    (hx : b.heap m = some x) (hn : x.state ≠ .new) (ha : x.state ≠ .active) :
    b.mark conn m = b.hide m := by
  cases hst : x.state with
  | new => exact absurd hst hn
  | active => exact absurd hst ha
  | unacknowledged => simp only [Book.mark, hx, hst]
  | deleteReq => simp only [Book.mark, hx, hst]
  | deleting => simp only [Book.mark, hx, hst]

/-- The connection that `_slotmap_mark_deleted()` looks up for an active mapping exists and
holds the mapping. -/
theorem Inv.conn_of_active (h : b.Inv) {conn : UInt16 → Option ConnId}
    (hconn : ∀ i k, conn i = some k ↔ b.bankOf k = some i) {m : MapId} {x : SlotMapping}
    (hx : b.heap m = some x) (hst : x.state = .active) :
    ∃ c, conn x.bank.bankId = some c ∧ m ∈ b.maps c .mapsActive := by
  obtain ⟨c, hm, hc⟩ := h.mem_of_state (l := .mapsActive) hx hst (by decide)
  exact ⟨c, (hconn _ _).mpr hc, hm⟩

theorem Inv.mark (h : b.Inv) {conn : UInt16 → Option ConnId}
    (hconn : ∀ i k, conn i = some k ↔ b.bankOf k = some i) (m : MapId) : (b.mark conn m).Inv := by
  cases hx : b.heap m with
  | none => rw [mark_none hx]; exact h
  | some x =>
      by_cases hn : x.state = .new
      · rw [mark_new hx hn]
        exact (h.hide m).free m
      · by_cases ha : x.state = .active
        · obtain ⟨c, hc, hm⟩ := h.conn_of_active hconn hx ha
          rw [mark_active hx ha hc]
          exact (h.hide m).move (l := .mapsActive) (t := .mapsDelreq) hm (by decide)
        · rw [mark_other hx hn ha]
          exact h.hide m

theorem mark_bankOf (conn : UInt16 → Option ConnId) (m : MapId) :
    (b.mark conn m).bankOf = b.bankOf := by
  unfold Book.mark
  split
  · rfl
  · split
    · rfl
    · split <;> rfl
    · rfl

theorem markAll_bankOf (conn : UInt16 → Option ConnId) :
    ∀ (ms : List MapId) (b : Book), (b.markAll conn ms).bankOf = b.bankOf
  | [], _ => rfl
  | m :: ms, b => (markAll_bankOf conn ms (b.mark conn m)).trans (mark_bankOf conn m)

theorem Inv.markAll {conn : UInt16 → Option ConnId} :
    ∀ (ms : List MapId) {b : Book}, b.Inv → (∀ i k, conn i = some k ↔ b.bankOf k = some i) →
      (b.markAll conn ms).Inv
  | [], _, h, _ => h
  | m :: ms, b, h, hconn =>
      Inv.markAll ms (h.mark hconn m) fun i k => by rw [mark_bankOf]; exact hconn i k

/-! ### Connection of a bank -/

/-- The mappings that `linkAll` selects. -/
def ofBank (b : Book) (id : UInt16) : List MapId :=
  b.mappings.filter fun m => (b.heap m).any fun x => x.bank.bankId = id

theorem mem_ofBank {id : UInt16} {m : MapId} :
    m ∈ b.ofBank id ↔ m ∈ b.mappings ∧ ∃ x, b.heap m = some x ∧ x.bank.bankId = id := by
  unfold ofBank
  rw [List.mem_filter]
  cases b.heap m <;> simp

theorem linkAll_bankOf (c : ConnId) (ms : List MapId) : (b.linkAll c ms).bankOf = b.bankOf := by
  refine ListLib.foldl_fixed Book.bankOf _ (fun b m => ?_) ms b
  split_ifs <;> rfl

theorem unlinkAll_bankOf (c : ConnId) : (b.unlinkAll c).bankOf = b.bankOf := by
  unfold unlinkAll
  simp only
  rw [(freeAll_spec _ _).2.2.1, (freeAll_spec _ _).2.2.1, (unlinkNew_spec _ _).2.2.1,
    (unlinkNew_spec _ _).2.2.1, (unlinkNew_spec _ _).2.2.1]

theorem linkAll_eq {c : ConnId} {id : UInt16} :
    ∀ (ms : List MapId) (b : Book), b.bankOf c = some id → b.linkAll c ms =
      b.moveAll c .mapsNew (ms.filter fun m => (b.heap m).any fun x => x.bank.bankId = id)
  | [], _, _ => rfl
  | m :: ms, b, hc => by
      have hany : ∀ a, ((b.stateChange m .new (some (c, .mapsNew))).heap a).any
          (fun x => decide (x.bank.bankId = id)) =
          (b.heap a).any fun x => decide (x.bank.bankId = id) := by
        intro a
        by_cases ha : a = m
        · subst ha
          rw [stateChange_heap_self]
          cases b.heap a <;> rfl
        · rw [stateChange_heap_of_ne ha]
      show (if ((b.heap m).map fun x => x.bank.bankId) = b.bankOf c then
          b.stateChange m .new (some (c, .mapsNew)) else b).linkAll c ms = _
      have hiff : ((b.heap m).map fun x => x.bank.bankId) = b.bankOf c ↔
          (b.heap m).any (fun x => decide (x.bank.bankId = id)) = true := by
        rw [hc]
        cases b.heap m <;> simp
      by_cases hm : (b.heap m).any (fun x => decide (x.bank.bankId = id)) = true
      · rw [if_pos (hiff.mpr hm), linkAll_eq ms _ (by exact hc), List.filter_cons, if_pos hm]
        simp only [hany]
        rfl
      · rw [if_neg fun e => hm (hiff.mp e), linkAll_eq ms b hc, List.filter_cons, if_neg hm]

/-- The mappings of a bank that is not connected are `NEW` and on no list. -/
theorem Inv.of_unconnected (h : b.Inv) {id : UInt16} (hid : ∀ k, b.bankOf k ≠ some id) {m : MapId}
    {x : SlotMapping} (hx : b.heap m = some x) (hb : x.bank.bankId = id) :
    x.state = .new ∧ ∀ k l, m ∉ b.maps k l := by
  have hoff : ∀ k l, m ∉ b.maps k l := by
    intro k l hm
    obtain ⟨y, hy, _, hk⟩ := h.linked k l m hm
    rw [hx] at hy
    obtain rfl := Option.some.inj hy
    exact hid k (hb ▸ hk)
  refine ⟨?_, hoff⟩
  by_contra hn
  obtain ⟨k, l, hm⟩ := h.placed m x hx hn
  exact hoff k l hm

theorem Inv.linked_spec (h : b.Inv) (c : ConnId) {id : UInt16}
    (hid : ∀ k, b.bankOf k ≠ some id) :
    (b.setBank c (some id)).linkAll c b.mappings =
      { b.setBank c (some id) with
        maps := fun k l => b.maps k l ++ (if some (c, .mapsNew) = some (k, l) then b.ofBank id
          else []) } := by
  have hbank : (b.setBank c (some id)).bankOf c = some id := Function.update_self _ _ _
  have hnd : (b.ofBank id).Nodup := h.wf.nodup.filter _
  rw [linkAll_eq _ _ hbank]
  change (b.setBank c (some id)).moveAll c .mapsNew (b.ofBank id) = _
  refine Book.ext ?_ ?_ ?_ ?_ ?_
  · funext m
    rw [moveAll_heap]
    split_ifs with hm
    · obtain ⟨_, x, hx, hb⟩ := mem_ofBank.mp hm
      have hst := (h.of_unconnected hid hx hb).1
      show (b.heap m).map _ = b.heap m
      rw [hx, Option.map_some, BankList.state, ← hst]
    · rfl
  · exact moveAll_mappings _ _ _ _
  · exact moveAll_next _ _ _ _
  · funext k l
    rw [moveAll_maps c .mapsNew _ _ hnd]
    show (b.maps k l).filter (· ∉ b.ofBank id) ++ _ = _
    rw [ListLib.filter_not_mem_of_disjoint]
    intro m hm hmem
    obtain ⟨_, x, hx, hb⟩ := mem_ofBank.mp hmem
    exact (h.of_unconnected hid hx hb).2 k l hm
  · exact moveAll_bankOf _ _ _ _

theorem Inv.linked_inv (h : b.Inv) {c : ConnId} {id : UInt16} (hc : b.bankOf c = none)
    (hid : ∀ k, b.bankOf k ≠ some id) : ((b.setBank c (some id)).linkAll c b.mappings).Inv := by
  rw [h.linked_spec c hid]
  have hother : ∀ k i, Function.update b.bankOf c (some id) k = some i →
      (k = c ∧ i = id) ∨ (k ≠ c ∧ b.bankOf k = some i) := by
    intro k i hk
    by_cases e : k = c
    · subst e
      rw [Function.update_self] at hk
      exact .inl ⟨rfl, (Option.some.inj hk).symm⟩
    · rw [Function.update_of_ne e] at hk
      exact .inr ⟨e, hk⟩
  refine ⟨h.wf, ?_, ?_, ?_, ?_, ?_⟩
  · intro k l m hm
    rw [List.mem_append] at hm
    show ∃ x, b.heap m = some x ∧ _ ∧ Function.update b.bankOf c (some id) k = _
    rcases hm with hm | hm
    · obtain ⟨x, hx, hst, hb⟩ := h.linked k l m hm
      have hk : k ≠ c := by
        rintro rfl
        rw [hc] at hb
        cases hb
      exact ⟨x, hx, hst, by rw [Function.update_of_ne hk]; exact hb⟩
    · split_ifs at hm with e
      · obtain ⟨rfl, rfl⟩ := Prod.mk.inj (Option.some.inj e)
        obtain ⟨_, x, hx, hb⟩ := mem_ofBank.mp hm
        exact ⟨x, hx, (h.of_unconnected hid hx hb).1, by rw [Function.update_self, hb]⟩
      · cases hm
  · intro k l
    show (b.maps k l ++ _).Nodup
    split_ifs with e
    · obtain ⟨rfl, rfl⟩ := Prod.mk.inj (Option.some.inj e)
      rw [h.maps_eq_nil hc, List.nil_append]
      exact h.wf.nodup.filter _
    · simpa using h.nodup k l
  · intro k k' i hk hk'
    rcases hother k i hk with ⟨hkc, hi⟩ | ⟨_, hb⟩ <;>
      rcases hother k' i hk' with ⟨hkc', hi'⟩ | ⟨_, hb'⟩
    · exact hkc.trans hkc'.symm
    · exact absurd (hi ▸ hb') (hid k')
    · exact absurd (hi' ▸ hb) (hid k)
    · exact h.bankUnique k k' i hb hb'
  · intro m x hx hst
    obtain ⟨k, l, hm⟩ := h.placed m x hx hst
    exact ⟨k, l, List.mem_append_left _ hm⟩
  · intro m x k hm hx hst hb
    rcases hother k _ hb with ⟨rfl, hi⟩ | ⟨_, hb⟩
    · refine List.mem_append_right _ ?_
      rw [if_pos rfl]
      exact mem_ofBank.mpr ⟨hm, x, hx, hi⟩
    · exact List.mem_append_left _ (h.queued m x k hm hx hst hb)

theorem Inv.connect (h : b.Inv) {c : ConnId} {id : UInt16} (hc : b.bankOf c = none)
    (hid : ∀ k, b.bankOf k ≠ some id) : (b.connect c id).Inv :=
  (h.linked_inv hc hid).push c

theorem Inv.connect_maps (h : b.Inv) {c : ConnId} {id : UInt16} (hc : b.bankOf c = none)
    (hid : ∀ k, b.bankOf k ≠ some id) (k : ConnId) (l : BankList) :
    (b.connect c id).maps k l =
      if k = c then (if l = .mapsUnack then b.ofBank id else []) else b.maps k l := by
  have hnil := h.maps_eq_nil hc
  unfold Book.connect
  rw [(h.linked_inv hc hid).push_maps c k l, h.linked_spec c hid]
  by_cases hk : k = c
  · cases l <;> simp [hk, hnil]
  · have hck : ¬ c = k := fun e => hk e.symm
    simp [hk, hck]

/-! ### Responses -/

theorem Inv.ack (h : b.Inv) (c : ConnId) : (b.ack c).Inv := by
  unfold Book.ack
  cases hm : b.maps c .mapsUnack with
  | nil => exact h
  | cons m ms =>
      exact h.move (l := .mapsUnack) (t := .mapsActive) (hm ▸ List.mem_cons_self) (by decide)

theorem Inv.unmap (h : b.Inv) (c : ConnId) : (b.unmap c).Inv := by
  unfold Book.unmap
  cases b.maps c .mapsDeleting with
  | nil => exact h
  | cons m ms => exact h.free m

end Book

end Remsim
