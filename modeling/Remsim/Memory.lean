import Remsim.Llist
import Remsim.Refinement

/-! # The slot maps in memory (`slotmap.h`, `slotmap.c`, `rspro_server.h`)

`Server` has the list of mappings and the lists of each bank connection as lists of pointers.  The
code has them as rings through the `struct llist_head` fields of the objects themselves, and finds
a mapping from a node by `container_of()`.  Here the memory is a function from addresses to words,
with the objects laid out as on a machine with 64-bit pointers:

* `struct slotmaps`: `mappings` at offset 0, then the lock;
* `struct slot_mapping`: `list` 0, `maps` 16, `bank` 24, `client` 28, `bank_list` 32, `state` 48;
* `conn->bank`: `maps_new` 0, `maps_unack` 16, `maps_active` 32, `maps_delreq` 48,
  `maps_deleting` 64, `bank_id` 80, `num_slots` 82.

The numbers of 16 and 32 bits share words, the one at the lower address in the lower bits.

`Holds` says that the memory holds the slot maps and bank lists of a `Server`;
`Holds.slotmapStateChange` and `Holds.slotmapFree` relate the list operations of `slotmap.c` on the
memory to those on the `Server`. -/

namespace Remsim

/-- The memory: words of 64 bits, named by the address of their first byte. -/
abbrev Mem := ℕ → ℕ

namespace Mem

variable (mem : Mem)

def write (a v : ℕ) : Mem := Function.update mem a v

/-- The 32 bits at an address that is a multiple of 8. -/
def low (a : ℕ) : ℕ := mem a % 2 ^ 32

/-- Assignment to the 32 bits at an address that is a multiple of 8. -/
def writeLow (a v : ℕ) : Mem := mem.write a (mem a / 2 ^ 32 * 2 ^ 32 + v)

theorem write_of_ne {a b : ℕ} (v : ℕ) (h : b ≠ a) : mem.write a v b = mem b :=
  Function.update_of_ne h _ _

theorem writeLow_of_ne {a b : ℕ} (v : ℕ) (h : b ≠ a) : mem.writeLow a v b = mem b :=
  mem.write_of_ne _ h

theorem low_writeLow {v : ℕ} (a : ℕ) (hv : v < 2 ^ 32) : (mem.writeLow a v).low a = v := by
  simp only [low, writeLow, write, Function.update_self]
  omega

/-- `struct llist_head`: `next` at offset 0, `prev` at offset 8. -/
def links : Llist.Links Mem ℕ where
  next mem a := mem a
  prev mem a := mem (a + 8)
  setNext mem a v := mem.write a v
  setPrev mem a v := mem.write (a + 8) v

/-! ### `struct slot_mapping` -/

/-- `map->maps`. -/
def mapsOf (map : ℕ) : ℕ := mem (map + 16)

/-- `map->bank` and `map->client`. -/
def slotsOf (map : ℕ) : BankSlot × ClientSlot :=
  let w := mem (map + 24)
  (⟨.ofNat w, .ofNat (w / 2 ^ 16)⟩, ⟨.ofNat (w / 2 ^ 32), .ofNat (w / 2 ^ 48)⟩)

/-- `map->state`. -/
def stateOf (map : ℕ) : ℕ := mem.low (map + 48)

end Mem

/-- The number of an enumerator. -/
def SlotMappingState.code : SlotMappingState → ℕ
  | .new => 0
  | .unacknowledged => 1
  | .active => 2
  | .deleteReq => 3
  | .deleting => 4

/-- The state with a number.  A number that is no enumerator is read as `NEW`: what is read here is
only ever compared with `SLMAP_S_DELETING`. -/
def SlotMappingState.ofCode : ℕ → SlotMappingState
  | 1 => .unacknowledged
  | 2 => .active
  | 3 => .deleteReq
  | 4 => .deleting
  | _ => .new

@[simp] theorem SlotMappingState.ofCode_code (st : SlotMappingState) : ofCode st.code = st := by
  cases st <;> rfl

theorem SlotMappingState.code_lt (st : SlotMappingState) : st.code < 2 ^ 32 := by
  cases st <;> decide

namespace Mem

variable (mem : Mem)

/-- The mapping at an address. -/
def mappingAt (map : ℕ) : SlotMapping :=
  ⟨(mem.slotsOf map).1, (mem.slotsOf map).2, .ofCode (mem.stateOf map)⟩

/-- `&map->bank_list`. -/
def bankList (map : ℕ) : ℕ := map + 32

/-- `container_of(node, struct slot_mapping, bank_list)`. -/
def containerOf (node : ℕ) : ℕ := node - 32

/-- `_Slotmap_state_change()`.  What `llist_del()` leaves in the links of a deleted node is
`poison`. -/
def slotmapStateChange (poison : ℕ × ℕ) (map : ℕ) (newState : SlotMappingState)
    (newBankList : Option ℕ) : Mem :=
  let mem := mem.writeLow (map + 48) newState.code
  let mem := links.del poison mem (bankList map)
  match newBankList with
  | some head => links.addTail mem (bankList map) head
  | none => links.initHead mem (bankList map)

/-- The two `llist_del()` of `_slotmap_del()`. -/
def slotmapUnlink (poison : ℕ × ℕ) (map : ℕ) : Mem :=
  let mem := links.del poison mem map
  links.del poison mem (bankList map)

end Mem

/-- Offset of a list head in `conn->bank`. -/
def BankList.offset : BankList → ℕ
  | .mapsNew => 0
  | .mapsUnack => 16
  | .mapsActive => 32
  | .mapsDelreq => 48
  | .mapsDeleting => 64

theorem BankList.offset_inj {l l' : BankList} : l.offset = l'.offset ↔ l = l' := by
  cases l <;> cases l' <;> decide

/-! ### The objects -/

/-- The objects that have list nodes. -/
inductive Obj where
  | slotmaps
  | mapping (m : MapId)
  | bank (c : ConnId)
deriving DecidableEq

namespace Obj

/-- The size of an object; the lock in `struct slotmaps` takes 56 bytes. -/
def size : Obj → ℕ
  | slotmaps => 72
  | mapping _ => 56
  | bank _ => 88

/-- The offsets of its list nodes. -/
def nodes : Obj → List ℕ
  | slotmaps => [0]
  | mapping _ => [0, 32]
  | bank _ => [0, 16, 32, 48, 64]

theorem node_bound {o : Obj} {i : ℕ} (h : i ∈ o.nodes) : i + 16 ≤ o.size ∧ i % 16 = 0 := by
  cases o <;> simp only [nodes, size, List.mem_cons, List.not_mem_nil, or_false] at h ⊢ <;> omega

end Obj

/-- The address of every object. -/
abbrev Layout := Obj → ℕ

/-- The address of a list head in `conn->bank`. -/
def Layout.head (L : Layout) (c : ConnId) (l : BankList) : ℕ := L (.bank c) + l.offset

namespace Server

variable (s : Server)

/-- The object exists. -/
def Live : Obj → Prop
  | .slotmaps => True
  | .mapping m => (s.heap m).isSome
  | .bank c => (s.conns c).isSome

/-- The addresses of the list nodes. -/
def nodes (L : Layout) : Set ℕ := {a | ∃ o, s.Live o ∧ ∃ i ∈ o.nodes, a = L o + i}

/-- The objects do not overlap, and none is at the start of the address space. -/
structure LaidOut (L : Layout) : Prop where
  high : ∀ o, s.Live o → 32 < L o
  disjoint : ∀ o o', s.Live o → s.Live o' → o ≠ o' →
    L o + o.size ≤ L o' ∨ L o' + o'.size ≤ L o

variable {s} {L : Layout}

theorem LaidOut.mono {s' : Server} (h : s.LaidOut L) (hlive : ∀ o, s'.Live o → s.Live o) :
    s'.LaidOut L :=
  ⟨fun o ho => h.high o (hlive o ho),
    fun o o' ho ho' => h.disjoint o o' (hlive o ho) (hlive o' ho')⟩

theorem LaidOut.word_inj (h : s.LaidOut L) {o o' : Obj} (ho : s.Live o) (ho' : s.Live o') {i j : ℕ}
    (hi : i + 8 ≤ o.size) (hj : j + 8 ≤ o'.size) (e : L o + i = L o' + j) : o = o' ∧ i = j := by
  by_cases hoo : o = o'
  · subst hoo
    exact ⟨rfl, by omega⟩
  · have := h.disjoint o o' ho ho' hoo
    omega

theorem LaidOut.lawful (h : s.LaidOut L) : Mem.links.Lawful (s.nodes L) := by
  have hskew : ∀ a ∈ s.nodes L, ∀ b ∈ s.nodes L, a ≠ b + 8 := by
    rintro a ⟨o, ho, i, hi, rfl⟩ b ⟨o', ho', j, hj, rfl⟩ e
    have hi := Obj.node_bound hi
    have hj := Obj.node_bound hj
    have := (h.word_inj ho ho' (i := i) (j := j + 8) (by omega) (by omega) (by omega)).2
    omega
  constructor
  · intro mem a _ v b _
    exact Function.update_apply mem a v b
  · intro mem a ha v b hb
    exact mem.write_of_ne v (hskew b hb a ha)
  · intro mem a ha v b hb
    exact mem.write_of_ne v (Ne.symm (hskew a ha b hb))
  · intro mem a _ v b _
    have := Function.update_apply mem (a + 8) v (b + 8)
    simp only [Nat.add_right_cancel_iff] at this
    exact this

theorem LaidOut.outside (h : s.LaidOut L) {o : Obj} (ho : s.Live o) {i : ℕ} (hi : i + 8 ≤ o.size)
    (hlink : ∀ j ∈ o.nodes, i ≠ j ∧ i ≠ j + 8) :
    Mem.links.Outside (s.nodes L) fun mem => mem (L o + i) := by
  rintro mem a ⟨o', ho', j, hj, rfl⟩ v
  have hb := Obj.node_bound hj
  constructor
  · refine mem.write_of_ne v fun e => ?_
    obtain ⟨rfl, rfl⟩ := h.word_inj ho ho' hi (by omega) e
    exact (hlink i hj).1 rfl
  · refine mem.write_of_ne v fun e => ?_
    rw [Nat.add_assoc] at e
    obtain ⟨rfl, rfl⟩ := h.word_inj ho ho' hi (by omega) e
    exact (hlink j hj).2 rfl

end Server

/-! ### The rings -/

/-- The lists of the server: the global list, the bank lists, and the nodes of mappings that are
not in one of them and so are heads of empty lists. -/
inductive ListRef where
  | mappings
  | bank (c : ConnId) (l : BankList)
  | unlisted (m : MapId)
  | unlinked (m : MapId)

namespace ListRef

/-- The object that the head is in, and its offset there. -/
def node : ListRef → Obj × ℕ
  | mappings => (.slotmaps, 0)
  | bank c l => (.bank c, l.offset)
  | unlisted m => (.mapping m, 0)
  | unlinked m => (.mapping m, 32)

/-- The address of the head. -/
def head (L : Layout) (r : ListRef) : ℕ := L r.node.1 + r.node.2

theorem node_mem (r : ListRef) : r.node.2 ∈ r.node.1.nodes := by
  cases r with
  | bank c l => cases l <;> simp [node, Obj.nodes, BankList.offset]
  | _ => simp [node, Obj.nodes]

theorem node_injective {r r' : ListRef} (h : r.node = r'.node) : r = r' := by
  cases r <;> cases r' <;> simp_all [node, BankList.offset_inj]

end ListRef

namespace Server

variable (s : Server)

/-- The lists there are. -/
def lists : Set ListRef := {r | s.Live r.node.1 ∧ match r with
  | .unlisted m => m ∉ s.mappings
  | .unlinked m => ∀ c l, m ∉ s.maps c l
  | _ => True}

/-- The addresses of the nodes in a list. -/
def elems (L : Layout) : ListRef → List ℕ
  | .mappings => s.mappings.map fun m => L (.mapping m)
  | .bank c l => (s.maps c l).map fun m => Mem.bankList (L (.mapping m))
  | _ => []

/-- The lists of the server are linked in the memory. -/
def RingsIn (L : Layout) (mem : Mem) : Prop :=
  Llist.Rings Mem.links (s.nodes L) mem s.lists (ListRef.head L) (s.elems L)

/-- The memory holds the slot maps and the bank lists of the server. -/
structure Holds (L : Layout) (mem : Mem) : Prop where
  rings : s.RingsIn L mem
  maps : ∀ m x, s.heap m = some x → mem.mapsOf (L (.mapping m)) = L .slotmaps
  slots : ∀ m x, s.heap m = some x → mem.slotsOf (L (.mapping m)) = x.slots
  state : ∀ m x, s.heap m = some x → mem.stateOf (L (.mapping m)) = x.state.code
  ids : ∀ c k, s.conns c = some k →
    mem.low (L (.bank c) + 80) = k.bankId.toNat + 2 ^ 16 * k.numSlots.toNat

variable {s} {s' : Server} {L : Layout} {mem : Mem} {m : MapId} {x : SlotMapping}

/-! ### Nodes -/

theorem live_of_heap (hx : s.heap m = some x) : s.Live (.mapping m) :=
  Option.isSome_iff_exists.mpr ⟨x, hx⟩

theorem Good.live_of_mem (hg : s.Good) {c : ConnId} {l : BankList} (hm : m ∈ s.maps c l) :
    s.Live (.mapping m) ∧ s.Live (.bank c) := by
  obtain ⟨x, hx, _, hb⟩ := hg.book.linked c l m hm
  have hb : (if c ∈ s.banks then (s.conns c).map Conn.bankId else none) = some x.bank.bankId := hb
  split_ifs at hb
  obtain ⟨k, hk, _⟩ := Option.map_eq_some_iff.mp hb
  exact ⟨live_of_heap hx, Option.isSome_iff_exists.mpr ⟨k, hk⟩⟩

theorem Good.live_of_listed (hg : s.Good) (hm : m ∈ s.mappings) : s.Live (.mapping m) :=
  Option.isSome_iff_exists.mpr (hg.book.wf.alloc m hm)

theorem LaidOut.mapping_inj (ha : s.LaidOut L) {m' : MapId} (hm : s.Live (.mapping m))
    (hm' : s.Live (.mapping m')) (e : L (.mapping m) = L (.mapping m')) : m = m' := by
  have hsize : 0 + 8 ≤ Obj.size (.mapping m) := by simp [Obj.size]
  exact Obj.mapping.inj (ha.word_inj hm hm' hsize hsize (by omega)).1

theorem LaidOut.node_ne (ha : s.LaidOut L) {o o' : Obj} (ho : s.Live o) (ho' : s.Live o') {i j : ℕ}
    (hi : i ∈ o.nodes) (hj : j ∈ o'.nodes) (h : o ≠ o' ∨ i ≠ j) : L o + i ≠ L o' + j := by
  intro e
  have hi := Obj.node_bound hi
  have hj := Obj.node_bound hj
  obtain ⟨hoo, hij⟩ := ha.word_inj ho ho' (by omega) (by omega) e
  exact h.elim (fun h => h hoo) fun h => h hij

theorem mem_nodes {o : Obj} (ho : s.Live o) {i : ℕ} (hi : i ∈ o.nodes) : L o + i ∈ s.nodes L :=
  ⟨o, ho, i, hi, rfl⟩

theorem LaidOut.head_ne (ha : s.LaidOut L) {r q : ListRef} (hr : s.Live r.node.1)
    (hq : s.Live q.node.1) (h : r ≠ q) : ListRef.head L r ≠ ListRef.head L q := by
  apply ha.node_ne hr hq r.node_mem q.node_mem
  by_contra hc
  simp only [not_or, not_not] at hc
  exact h (ListRef.node_injective (Prod.ext hc.1 hc.2))

theorem map_filter_ne {f : MapId → ℕ} {ms : List MapId} (hf : ∀ a ∈ ms, f a = f m → a = m) :
    (ms.map f).filter (· ≠ f m) = (ms.filter (· ≠ m)).map f := by
  rw [List.filter_map]
  refine congrArg _ (List.filter_congr fun a ha => ?_)
  simp only [Function.comp_apply, decide_eq_decide, not_iff_not]
  exact ⟨hf a ha, fun e => e ▸ rfl⟩

theorem Good.elems_filter_list (hg : s.Good) (ha : s.LaidOut L) (hm : s.Live (.mapping m))
    (r : ListRef) : (s.elems L r).filter (· ≠ L (.mapping m)) = match r with
      | .mappings => (s.mappings.filter (· ≠ m)).map fun m => L (.mapping m)
      | r => s.elems L r := by
  cases r with
  | mappings =>
      exact map_filter_ne (f := fun m => L (.mapping m))
        fun a hmem e => ha.mapping_inj (hg.live_of_listed hmem) hm e
  | bank c l =>
      apply List.filter_eq_self.mpr
      intro b hb
      obtain ⟨a, hmem, rfl⟩ := List.mem_map.mp hb
      have hne := ha.node_ne (hg.live_of_mem hmem).1 hm (i := 32) (j := 0) (by simp [Obj.nodes])
        (by simp [Obj.nodes]) (.inr (by decide))
      exact decide_eq_true hne
  | _ => rfl

theorem Good.elems_filter_bankList (hg : s.Good) (ha : s.LaidOut L) (hm : s.Live (.mapping m))
    (r : ListRef) : (s.elems L r).filter (· ≠ Mem.bankList (L (.mapping m))) = match r with
      | .bank c l => ((s.maps c l).filter (· ≠ m)).map fun m => Mem.bankList (L (.mapping m))
      | r => s.elems L r := by
  cases r with
  | mappings =>
      apply List.filter_eq_self.mpr
      intro b hb
      obtain ⟨a, hmem, rfl⟩ := List.mem_map.mp hb
      have hne := ha.node_ne (hg.live_of_listed hmem) hm (i := 0) (j := 32) (by simp [Obj.nodes])
        (by simp [Obj.nodes]) (.inr (by decide))
      exact decide_eq_true hne
  | bank c l =>
      apply map_filter_ne (f := fun m => Mem.bankList (L (.mapping m)))
      intro a hmem e
      apply ha.mapping_inj (hg.live_of_mem hmem).1 hm
      simp only [Mem.bankList] at e
      omega
  | _ => rfl

theorem deletable_list (hm : s.Live (.mapping m)) :
    Llist.Rings.Deletable s.lists (ListRef.head L) (s.elems L) (L (.mapping m)) := by
  by_cases hl : m ∈ s.mappings
  · exact ⟨.mappings, ⟨trivial, trivial⟩, .inl (List.mem_map.mpr ⟨m, hl, rfl⟩)⟩
  · exact ⟨.unlisted m, ⟨hm, hl⟩, .inr ⟨rfl, rfl⟩⟩

theorem Good.deletable_bankList (hg : s.Good) (hm : s.Live (.mapping m)) :
    Llist.Rings.Deletable s.lists (ListRef.head L) (s.elems L)
      (Mem.bankList (L (.mapping m))) := by
  by_cases hu : ∀ c l, m ∉ s.maps c l
  · exact ⟨.unlinked m, ⟨hm, hu⟩, .inr ⟨rfl, rfl⟩⟩
  · simp only [not_forall, not_not] at hu
    obtain ⟨c, l, hml⟩ := hu
    exact ⟨.bank c l, ⟨(hg.live_of_mem hml).2, trivial⟩, .inl (List.mem_map.mpr ⟨m, hml, rfl⟩)⟩

/-! ### `_Slotmap_state_change()` -/

theorem RingsIn.writeLow (hr : s.RingsIn L mem) (ha : s.LaidOut L) {o : Obj} (ho : s.Live o) {i : ℕ}
    (hi : i + 8 ≤ o.size) (hlink : ∀ j ∈ o.nodes, i ≠ j ∧ i ≠ j + 8) (v : ℕ) :
    s.RingsIn L (mem.writeLow (L o + i) v) := by
  refine hr.congr ?_ (fun _ h => ⟨h, rfl⟩) hr.mem
  rintro a ⟨o', ho', j, hj, rfl⟩
  have hb := Obj.node_bound hj
  constructor
  · refine mem.writeLow_of_ne v fun e => ?_
    obtain ⟨rfl, rfl⟩ := ha.word_inj ho' ho (by omega) hi e
    exact (hlink j hj).1 rfl
  · refine mem.writeLow_of_ne v fun e => ?_
    rw [Nat.add_assoc] at e
    obtain ⟨rfl, rfl⟩ := ha.word_inj ho' ho (by omega) hi e
    exact (hlink j hj).2 rfl

theorem state_no_link : ∀ j ∈ (Obj.mapping m).nodes, 48 ≠ j ∧ 48 ≠ j + 8 := by
  simp [Obj.nodes]

/-- The part of `_Slotmap_state_change()` that moves the node. -/
theorem RingsIn.del_bankList (hr : s.RingsIn L mem) (hg : s.Good) (ha : s.LaidOut L)
    (hm : s.Live (.mapping m)) (poison : ℕ × ℕ) :
    Llist.Rings Mem.links (s.nodes L) (Mem.links.del poison mem (Mem.bankList (L (.mapping m))))
      {r ∈ s.lists | ListRef.head L r ≠ Mem.bankList (L (.mapping m))} (ListRef.head L)
      fun r => (s.elems L r).filter (· ≠ Mem.bankList (L (.mapping m))) :=
  Llist.Rings.del hr ha.lawful (hg.deletable_bankList hm) poison

theorem live_slotmapStateChange (st : SlotMappingState) (dst : Option (ConnId × BankList))
    (o : Obj) : (s.slotmapStateChange m st dst).Live o ↔ s.Live o := by
  cases o with
  | mapping a =>
      by_cases e : a = m
      · subst e
        simp [Live, slotmapStateChange]
      · simp [Live, slotmapStateChange, e]
  | _ => exact Iff.rfl

theorem nodes_congr (h : ∀ o, s'.Live o ↔ s.Live o) : s'.nodes L = s.nodes L := by
  unfold nodes
  simp only [h]

theorem elems_slotmapStateChange (hg : s.Good) (ha : s.LaidOut L) (hm : s.Live (.mapping m))
    (st : SlotMappingState) (dst : Option (ConnId × BankList)) (r : ListRef) :
    (s.slotmapStateChange m st dst).elems L r =
      (s.elems L r).filter (· ≠ Mem.bankList (L (.mapping m))) ++
        (match r with
          | .bank c l => if dst = some (c, l) then [Mem.bankList (L (.mapping m))] else []
          | _ => []) := by
  rw [hg.elems_filter_bankList ha hm]
  cases r with
  | bank c l =>
      simp only [elems, slotmapStateChange, List.map_append]
      split_ifs <;> rfl
  | _ => exact (List.append_nil _).symm

/-- Moving a mapping makes no list but the empty one of its own node. -/
theorem lists_slotmapStateChange {st : SlotMappingState} {dst : Option (ConnId × BankList)}
    {r : ListRef} (hr : r ∈ (s.slotmapStateChange m st dst).lists) :
    (r = .unlinked m ∧ dst = none) ∨ (r ∈ s.lists ∧ r ≠ .unlinked m) := by
  have hl := (live_slotmapStateChange st dst _).mp hr.1
  cases r with
  | unlinked a =>
      by_cases e : a = m
      · subst e
        cases dst with
        | none => exact .inl ⟨rfl, rfl⟩
        | some d => exact absurd (by simp [Server.slotmapStateChange]) (hr.2 d.1 d.2)
      · refine .inr ⟨⟨hl, fun c l hmem => hr.2 c l ?_⟩, by simpa using e⟩
        apply List.mem_append_left
        simpa [e] using hmem
  | _ => exact .inr ⟨⟨hl, hr.2⟩, by simp⟩

theorem RingsIn.slotmapStateChange (hr : s.RingsIn L mem) (hg : s.Good) (ha : s.LaidOut L)
    (hm : s.Live (.mapping m)) (poison : ℕ × ℕ) (st : SlotMappingState) {dst : Option (ConnId × BankList)}
    (hd : ∀ c l, dst = some (c, l) → s.Live (.bank c)) :
    (s.slotmapStateChange m st dst).RingsIn L
      (mem.slotmapStateChange poison (L (.mapping m)) st (dst.map fun d => L.head d.1 d.2)) := by
  have hdel := (hr.writeLow ha hm (by simp [Obj.size]) state_no_link st.code).del_bankList hg ha hm
    poison
  have hx := (hr.nodes_of_deletable (hg.deletable_bankList hm)).1
  have hnot : ∀ r ∈ {r ∈ s.lists | ListRef.head L r ≠ Mem.bankList (L (.mapping m))},
      Mem.bankList (L (.mapping m)) ∉ ListRef.head L r ::
        (s.elems L r).filter (· ≠ Mem.bankList (L (.mapping m))) := by
    intro r hr hmem
    rcases List.mem_cons.mp hmem with e | hmem
    · exact hr.2 e.symm
    · simp at hmem
  have helems := elems_slotmapStateChange hg ha hm st dst
  unfold RingsIn
  rw [nodes_congr (live_slotmapStateChange st dst)]
  cases dst with
  | none =>
      refine (hdel.initHead (i := ListRef.unlinked m) ha.lawful hx hnot rfl).restrict
        fun r hr => ⟨?_, ?_⟩
      · rcases lists_slotmapStateChange hr with ⟨rfl, _⟩ | ⟨hr, hne⟩
        · exact .inl rfl
        · exact .inr ⟨hr, ha.head_ne hr.1 (q := .unlinked m) hm hne⟩
      · rw [helems r]
        cases r <;> exact List.append_nil _
  | some d =>
      obtain ⟨c, l⟩ := d
      have hc : ListRef.bank c l ∈ s.lists := ⟨hd c l rfl, trivial⟩
      have hhead := ha.head_ne hc.1 (q := .unlinked m) hm (by simp)
      refine (hdel.addTail (i := ListRef.bank c l) ha.lawful ⟨hc, hhead⟩ hx hnot ?_ ?_).restrict
        fun r hr => ⟨?_, rfl⟩
      · rw [helems]
        simp
      · intro r _ hne
        rw [helems r]
        cases r with
        | bank c' l' =>
            have : (c, l) ≠ (c', l') := fun e => hne (by cases e; rfl)
            simp [this]
        | _ => exact List.append_nil _
      · rcases lists_slotmapStateChange hr with ⟨_, h⟩ | ⟨hr, hne⟩
        · cases h
        · exact ⟨hr, ha.head_ne hr.1 (q := .unlinked m) hm hne⟩

theorem RingsIn.slotmapStateChange_outside (hr : s.RingsIn L mem) (hg : s.Good) (ha : s.LaidOut L)
    (hm : s.Live (.mapping m)) (poison : ℕ × ℕ) (st : SlotMappingState) {dst : Option (ConnId × BankList)}
    (hd : ∀ c l, dst = some (c, l) → s.Live (.bank c)) {f : Mem → ℕ}
    (hf : Mem.links.Outside (s.nodes L) f) :
    f (mem.slotmapStateChange poison (L (.mapping m)) st (dst.map fun d => L.head d.1 d.2)) =
      f (mem.writeLow (L (.mapping m) + 48) st.code) := by
  have hw := hr.writeLow ha hm (by simp [Obj.size]) state_no_link st.code
  obtain ⟨hx, hn, hp⟩ := hw.nodes_of_deletable (hg.deletable_bankList hm)
  have hdel := hw.del_bankList hg ha hm poison
  cases dst with
  | none => exact (hf.initHead hx).trans (hf.del hx hn hp)
  | some d =>
      obtain ⟨c, l⟩ := d
      have hc : ListRef.bank c l ∈ s.lists := ⟨hd c l rfl, trivial⟩
      have hon := And.intro hc (ha.head_ne hc.1 (q := .unlinked m) hm (by simp))
      have hh := hdel.mem _ hon _ List.mem_cons_self
      have hq := hdel.mem _ hon _ (hdel.ring _ hon).prev_head_mem
      exact (hf.addTail hx hh hq).trans (hf.del hx hn hp)

/-- Words that are neither links nor the state of the mapping stay as they are. -/
theorem RingsIn.slotmapStateChange_word (hr : s.RingsIn L mem) (hg : s.Good) (ha : s.LaidOut L)
    (hm : s.Live (.mapping m)) (poison : ℕ × ℕ) (st : SlotMappingState) {dst : Option (ConnId × BankList)}
    (hd : ∀ c l, dst = some (c, l) → s.Live (.bank c)) {o : Obj} (ho : s.Live o) {i : ℕ}
    (hi : i + 8 ≤ o.size) (hlink : ∀ j ∈ o.nodes, i ≠ j ∧ i ≠ j + 8)
    (hne : o = .mapping m → i ≠ 48) :
    mem.slotmapStateChange poison (L (.mapping m)) st (dst.map fun d => L.head d.1 d.2) (L o + i) =
      mem (L o + i) := by
  rw [hr.slotmapStateChange_outside hg ha hm poison st hd (ha.outside ho hi hlink)]
  refine mem.writeLow_of_ne _ fun e => ?_
  obtain ⟨hoo, hij⟩ := ha.word_inj ho hm hi (by simp [Obj.size]) e
  exact hne hoo hij

/-- `_Slotmap_state_change()` on the memory does what it does on the server. -/
theorem Holds.slotmapStateChange (h : s.Holds L mem) (hg : s.Good) (ha : s.LaidOut L)
    (hx : s.heap m = some x) (poison : ℕ × ℕ) (st : SlotMappingState)
    {dst : Option (ConnId × BankList)} (hd : ∀ c l, dst = some (c, l) → s.Live (.bank c)) :
    (s.slotmapStateChange m st dst).Holds L
      (mem.slotmapStateChange poison (L (.mapping m)) st (dst.map fun d => L.head d.1 d.2)) := by
  have hm := live_of_heap hx
  have hword := fun o ho i hi hlink hne => h.rings.slotmapStateChange_word (o := o) (i := i) hg ha hm
    poison st hd ho hi hlink hne
  have hold : ∀ a y, (s.slotmapStateChange m st dst).heap a = some y → ∃ z, s.heap a = some z ∧
      y.slots = z.slots ∧ y.state = if a = m then st else z.state := by
    intro a y hy
    by_cases e : a = m
    · subst e
      refine ⟨x, hx, ?_⟩
      simp only [Server.slotmapStateChange, hx, Function.update_self, Option.map_some,
        Option.some.injEq] at hy
      subst hy
      exact ⟨rfl, (if_pos rfl).symm⟩
    · refine ⟨y, ?_, rfl, (if_neg e).symm⟩
      simpa only [Server.slotmapStateChange, Function.update_of_ne e] using hy
  constructor
  · exact h.rings.slotmapStateChange hg ha hm poison st hd
  · intro a y hy
    obtain ⟨z, hz, _⟩ := hold a y hy
    have := hword (.mapping a) (live_of_heap hz) 16 (by simp [Obj.size]) (by simp [Obj.nodes])
      (fun _ => by decide)
    exact this.trans (h.maps a z hz)
  · intro a y hy
    obtain ⟨z, hz, hslots, _⟩ := hold a y hy
    have := hword (.mapping a) (live_of_heap hz) 24 (by simp [Obj.size]) (by simp [Obj.nodes])
      (fun _ => by decide)
    rw [hslots, ← h.slots a z hz]
    simp only [Mem.slotsOf, this]
  · intro a y hy
    obtain ⟨z, hz, _, hst⟩ := hold a y hy
    rw [hst]
    split_ifs with e
    · subst e
      have := h.rings.slotmapStateChange_outside hg ha hm poison st hd
        (ha.outside hm (i := 48) (by simp [Obj.size]) state_no_link)
      simp only [Mem.stateOf, Mem.low, this]
      exact mem.low_writeLow _ st.code_lt
    · have := hword (.mapping a) (live_of_heap hz) 48 (by simp [Obj.size]) state_no_link
        (fun h => absurd (Obj.mapping.inj h) e)
      simp only [Mem.stateOf, Mem.low, this]
      exact h.state a z hz
  · intro c k hk
    have := hword (.bank c) (Option.isSome_iff_exists.mpr ⟨k, hk⟩) 80 (by simp [Obj.size])
      (by simp [Obj.nodes]) (by simp)
    simp only [Mem.low, this]
    exact h.ids c k hk

/-! ### `_slotmap_del()` -/

theorem live_slotmapFree (o : Obj) :
    (s.slotmapFree m).Live o ↔ s.Live o ∧ o ≠ .mapping m := by
  cases o with
  | mapping a =>
      by_cases e : a = m
      · subst e
        simp [Live, slotmapFree]
      · simp [Live, slotmapFree, Slotmaps.slotmapDel_heap_of_ne e, e]
  | _ => simp [Live, slotmapFree]

theorem lists_slotmapFree {r : ListRef} (hr : r ∈ (s.slotmapFree m).lists) :
    r ∈ s.lists ∧ r ≠ .unlisted m ∧ r ≠ .unlinked m := by
  obtain ⟨hl, hne⟩ := (live_slotmapFree _).mp hr.1
  cases r with
  | unlisted a =>
      have e : a ≠ m := by simpa [ListRef.node] using hne
      refine ⟨⟨hl, fun hmem => hr.2 ?_⟩, by simpa using e, by simp⟩
      exact Slotmaps.mem_slotmapDel.mpr ⟨hmem, e⟩
  | unlinked a =>
      have e : a ≠ m := by simpa [ListRef.node] using hne
      refine ⟨⟨hl, fun c l hmem => hr.2 c l ?_⟩, by simp, by simpa using e⟩
      simpa [slotmapFree, e] using hmem
  | _ => exact ⟨⟨hl, hr.2⟩, by simp, by simp⟩

theorem elems_slotmapFree (hg : s.Good) (ha : s.LaidOut L) (hm : s.Live (.mapping m))
    (r : ListRef) : (s.slotmapFree m).elems L r =
      ((s.elems L r).filter (· ≠ L (.mapping m))).filter
        (· ≠ Mem.bankList (L (.mapping m))) := by
  cases r with
  | mappings =>
      have h₁ := hg.elems_filter_bankList ha hm .mappings
      have h₂ := hg.elems_filter_list ha hm .mappings
      rw [List.filter_comm, h₁]
      exact h₂.symm
  | bank c l =>
      have h₁ := hg.elems_filter_list ha hm (.bank c l)
      have h₂ := hg.elems_filter_bankList ha hm (.bank c l)
      rw [h₁]
      exact h₂.symm
  | _ => rfl

theorem nodes_of_lists {s : Server} (hm : ∀ m ∈ s.mappings, s.Live (.mapping m))
    (hb : ∀ c l, ∀ m ∈ s.maps c l, s.Live (.mapping m)) :
    ∀ r ∈ s.lists, ∀ a ∈ ListRef.head L r :: s.elems L r, a ∈ s.nodes L := by
  intro r hr a hmem
  rcases List.mem_cons.mp hmem with rfl | hmem
  · exact mem_nodes hr.1 r.node_mem
  · cases r with
    | mappings =>
        obtain ⟨m, hmem', rfl⟩ := List.mem_map.mp hmem
        exact mem_nodes (o := .mapping m) (i := 0) (hm m hmem') (by simp [Obj.nodes])
    | bank c l =>
        obtain ⟨m, hmem', rfl⟩ := List.mem_map.mp hmem
        exact mem_nodes (o := .mapping m) (i := 32) (hb c l m hmem') (by simp [Obj.nodes])
    | _ => cases hmem

theorem Good.nodes_slotmapFree (hg : s.Good) :
    ∀ r ∈ (s.slotmapFree m).lists, ∀ a ∈ ListRef.head L r :: (s.slotmapFree m).elems L r,
      a ∈ (s.slotmapFree m).nodes L := by
  apply nodes_of_lists
  · intro a hmem
    obtain ⟨hmem, hne⟩ := Slotmaps.mem_slotmapDel.mp hmem
    exact (live_slotmapFree _).mpr ⟨hg.live_of_listed hmem, by simpa using hne⟩
  · intro c l a hmem
    obtain ⟨hmem, hne⟩ : a ∈ s.maps c l ∧ a ≠ m := by simpa [slotmapFree] using hmem
    exact (live_slotmapFree _).mpr ⟨(hg.live_of_mem hmem).1, by simpa using hne⟩

/-- After the first `llist_del()` of `_slotmap_del()` the second node is still in its list. -/
theorem Good.deletable_after (hg : s.Good) (ha : s.LaidOut L) (hm : s.Live (.mapping m)) :
    Llist.Rings.Deletable {r ∈ s.lists | ListRef.head L r ≠ L (.mapping m)} (ListRef.head L)
      (fun r => (s.elems L r).filter (· ≠ L (.mapping m))) (Mem.bankList (L (.mapping m))) := by
  have hne : Mem.bankList (L (.mapping m)) ≠ L (.mapping m) := by
    simp only [Mem.bankList]
    omega
  obtain ⟨r, hr, hmem | ⟨e, hnil⟩⟩ := hg.deletable_bankList (L := L) hm
  · have hr' : r ≠ .unlisted m := by
      rintro rfl
      cases hmem
    exact ⟨r, ⟨hr, ha.head_ne hr.1 (q := .unlisted m) hm hr'⟩,
      .inl (List.mem_filter.mpr ⟨hmem, decide_eq_true hne⟩)⟩
  · refine ⟨r, ⟨hr, e ▸ hne⟩, .inr ⟨e, ?_⟩⟩
    simp only [hnil, List.filter_nil]

theorem RingsIn.slotmapFree (hr : s.RingsIn L mem) (hg : s.Good) (ha : s.LaidOut L)
    (hm : s.Live (.mapping m)) (poison : ℕ × ℕ) :
    (s.slotmapFree m).RingsIn L (mem.slotmapUnlink poison (L (.mapping m))) := by
  have h₁ := hr.del ha.lawful (deletable_list hm) poison
  have h₂ := h₁.del ha.lawful (hg.deletable_after ha hm) poison
  refine h₂.congr (fun _ _ => ⟨rfl, rfl⟩) (fun r hr => ⟨⟨⟨?_, ?_⟩, ?_⟩, ?_⟩) hg.nodes_slotmapFree
  · exact (lists_slotmapFree hr).1
  · exact ha.head_ne (lists_slotmapFree hr).1.1 (q := .unlisted m) hm (lists_slotmapFree hr).2.1
  · exact ha.head_ne (lists_slotmapFree hr).1.1 (q := .unlinked m) hm (lists_slotmapFree hr).2.2
  · exact elems_slotmapFree hg ha hm r

theorem RingsIn.slotmapUnlink_outside (hr : s.RingsIn L mem) (hg : s.Good) (ha : s.LaidOut L)
    (hm : s.Live (.mapping m)) (poison : ℕ × ℕ) {f : Mem → ℕ} (hf : Mem.links.Outside (s.nodes L) f) :
    f (mem.slotmapUnlink poison (L (.mapping m))) = f mem := by
  have h₁ := hr.del ha.lawful (deletable_list hm) poison
  obtain ⟨hx, hn, hp⟩ := hr.nodes_of_deletable (deletable_list (L := L) hm)
  obtain ⟨hx', hn', hp'⟩ := h₁.nodes_of_deletable (hg.deletable_after ha hm)
  exact (hf.del hx' hn' hp').trans (hf.del hx hn hp)

/-- `_slotmap_del()` on the memory does what it does on the server. -/
theorem Holds.slotmapFree (h : s.Holds L mem) (hg : s.Good) (ha : s.LaidOut L)
    (hm : s.Live (.mapping m)) (poison : ℕ × ℕ) :
    (s.slotmapFree m).Holds L (mem.slotmapUnlink poison (L (.mapping m))) := by
  have hword := fun o ho i hi hlink => h.rings.slotmapUnlink_outside hg ha hm poison
    (ha.outside (o := o) (i := i) ho hi hlink)
  have hold : ∀ a y, (s.slotmapFree m).heap a = some y → s.heap a = some y := by
    intro a y hy
    have hne : a ≠ m := by
      rintro rfl
      simp [Server.slotmapFree] at hy
    simpa only [Server.slotmapFree, Slotmaps.slotmapDel_heap_of_ne hne] using hy
  constructor
  · exact h.rings.slotmapFree hg ha hm poison
  · intro a y hy
    have := hword (.mapping a) (live_of_heap (hold a y hy)) 16 (by simp [Obj.size])
      (by simp [Obj.nodes])
    exact this.trans (h.maps a y (hold a y hy))
  · intro a y hy
    have := hword (.mapping a) (live_of_heap (hold a y hy)) 24 (by simp [Obj.size])
      (by simp [Obj.nodes])
    rw [← h.slots a y (hold a y hy)]
    simp only [Mem.slotsOf, this]
  · intro a y hy
    have := hword (.mapping a) (live_of_heap (hold a y hy)) 48 (by simp [Obj.size]) state_no_link
    simp only [Mem.stateOf, Mem.low, this]
    exact h.state a y (hold a y hy)
  · intro c k hk
    have := hword (.bank c) (Option.isSome_iff_exists.mpr ⟨k, hk⟩) 80 (by simp [Obj.size])
      (by simp [Obj.nodes])
    simp only [Mem.low, this]
    exact h.ids c k hk

end Server

end Remsim
