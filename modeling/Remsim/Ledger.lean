import Remsim.Book

/-! # The ledger: what the server owes its banks

An abstract machine over the bookkeeping of `Remsim.Book`.  A `Ledger` adds to the book which bank
connections have a running FSM and whether an eventfd notification is pending.  An `Event` is the
effect of one atomic step of the server on the ledger: `apply` is the new ledger and `requests`
are the create and remove requests that the step sends on a connection.

`Remsim.Refinement` proves that every step of the server is the event `Server.event` says.  The
protocol results about banks are proved on events, so they do not depend on how the server's
functions are written. -/

namespace Remsim

/-- The PDU is one that changes the mappings of a bankd. -/
def Tx.isRequest (t : Tx) : Bool :=
  match t.pdu with
  | .createMappingReq _ _ => true
  | .removeMappingReq _ _ => true
  | .resetStateReq => true
  | _ => false

namespace Book

variable (b : Book)

/-- The slot pair of a mapping. -/
def slotsOf (m : MapId) : Option (BankSlot × ClientSlot) := (b.heap m).map SlotMapping.slots

/-- The create request for a mapping. -/
def createTx (m : MapId) : Option Tx :=
  (b.heap m).map fun x => ⟨slotmap2CreateMappingReq x, some m⟩

/-- The remove request for a mapping. -/
def removeTx (m : MapId) : Option Tx :=
  (b.heap m).map fun x => ⟨slotmap2RemoveMappingReq x, some m⟩

/-- The requests that `CLNTC_E_PUSH` sends. -/
def pushTxs (c : ConnId) : List Tx :=
  (b.maps c .mapsNew).filterMap b.createTx ++ (b.maps c .mapsDelreq).filterMap b.removeTx

/-- Pushing at several connections. -/
def pushAll (cs : List ConnId) : Book := cs.foldl push b

variable {b} {b' : Book}

/-! ### Slot pairs never change -/

theorem createTx_congr {m : MapId} (h : b.slotsOf m = b'.slotsOf m) :
    b.createTx m = b'.createTx m := by
  unfold slotsOf at h
  unfold createTx
  cases hx : b.heap m <;> cases hy : b'.heap m <;> simp only [hx, hy, Option.map_some,
    Option.map_none, reduceCtorEq, Option.some.injEq] at h ⊢
  obtain ⟨h₁, h₂⟩ := Prod.mk.inj h
  rw [slotmap2CreateMappingReq, h₁, h₂]
  rfl

theorem removeTx_congr {m : MapId} (h : b.slotsOf m = b'.slotsOf m) :
    b.removeTx m = b'.removeTx m := by
  unfold slotsOf at h
  unfold removeTx
  cases hx : b.heap m <;> cases hy : b'.heap m <;> simp only [hx, hy, Option.map_some,
    Option.map_none, reduceCtorEq, Option.some.injEq] at h ⊢
  obtain ⟨h₁, h₂⟩ := Prod.mk.inj h
  rw [slotmap2RemoveMappingReq, h₁, h₂]
  rfl

@[simp] theorem slotsOf_stateChange (m a : MapId) (st : SlotMappingState)
    (dst : Option (ConnId × BankList)) : (b.stateChange m st dst).slotsOf a = b.slotsOf a := by
  unfold slotsOf
  by_cases h : a = m
  · subst h
    rw [stateChange_heap_self]
    cases b.heap a <;> rfl
  · rw [stateChange_heap_of_ne h]

theorem slotsOf_moveAll (c : ConnId) (l : BankList) (a : MapId) :
    ∀ (ms : List MapId) (b : Book), (b.moveAll c l ms).slotsOf a = b.slotsOf a
  | [], _ => rfl
  | m :: ms, b => by rw [moveAll_cons, slotsOf_moveAll c l a ms, slotsOf_stateChange]

@[simp] theorem slotsOf_push (c : ConnId) (a : MapId) : (b.push c).slotsOf a = b.slotsOf a := by
  rw [Book.push, slotsOf_moveAll, slotsOf_moveAll]

theorem slotsOf_pushAll (a : MapId) :
    ∀ (cs : List ConnId) (b : Book), (b.pushAll cs).slotsOf a = b.slotsOf a
  | [], _ => rfl
  | c :: cs, b => (slotsOf_pushAll a cs (b.push c)).trans (slotsOf_push c a)

/-! ### Pushing at several connections -/

theorem pushAll_mappings :
    ∀ (cs : List ConnId) (b : Book), (b.pushAll cs).mappings = b.mappings
  | [], _ => rfl
  | c :: cs, b => (pushAll_mappings cs (b.push c)).trans (push_mappings c)

theorem pushAll_bankOf : ∀ (cs : List ConnId) (b : Book), (b.pushAll cs).bankOf = b.bankOf
  | [], _ => rfl
  | c :: cs, b => (pushAll_bankOf cs (b.push c)).trans (push_bankOf c)

theorem Inv.pushAll : ∀ (cs : List ConnId) {b : Book}, b.Inv → (b.pushAll cs).Inv
  | [], _, h => h
  | c :: cs, _, h => Inv.pushAll cs (h.push c)

theorem Inv.pushAll_maps :
    ∀ (cs : List ConnId) {b : Book}, b.Inv → cs.Nodup → ∀ k l,
      (b.pushAll cs).maps k l = if k ∈ cs then (b.push k).maps k l else b.maps k l
  | [], b, _, _, k, l => by simp [Book.pushAll]
  | c :: cs, b, h, hnd, k, l => by
      obtain ⟨hc, hnd⟩ := List.nodup_cons.mp hnd
      refine (Inv.pushAll_maps cs (h.push c) hnd k l).trans ?_
      by_cases hk : k ∈ cs
      · have hkc : k ≠ c := fun e => hc (e ▸ hk)
        have hsame : ∀ l, (b.push c).maps k l = b.maps k l := fun l => by
          rw [h.push_maps, if_neg hkc]
        rw [if_pos hk, if_pos (List.mem_cons_of_mem _ hk), (h.push c).push_maps k k l,
          h.push_maps k k l]
        cases l <;> simp only [hsame]
      · rw [if_neg hk]
        by_cases hkc : k = c
        · rw [hkc, if_pos List.mem_cons_self]
        · rw [h.push_maps, if_neg hkc, if_neg (by simp [hk, hkc])]

theorem pushTxs_congr {c : ConnId} (hm : ∀ l, b'.maps c l = b.maps c l)
    (hs : ∀ m, b'.slotsOf m = b.slotsOf m) : b'.pushTxs c = b.pushTxs c := by
  have hc : b'.createTx = b.createTx := funext fun m => createTx_congr (hs m)
  have hr : b'.removeTx = b.removeTx := funext fun m => removeTx_congr (hs m)
  unfold pushTxs
  rw [hm, hm, hc, hr]

theorem filter_pushTxs (b : Book) (c : ConnId) :
    (b.pushTxs c).filter Tx.isRequest = b.pushTxs c := by
  rw [List.filter_eq_self]
  intro t ht
  simp only [pushTxs, List.mem_append, List.mem_filterMap] at ht
  rcases ht with ⟨m, _, hm⟩ | ⟨m, _, hm⟩
  · obtain ⟨x, _, rfl⟩ := Option.map_eq_some_iff.mp hm
    rfl
  · obtain ⟨x, _, rfl⟩ := Option.map_eq_some_iff.mp hm
    rfl

/-- At a bank that has just been linked all its mappings are pushed, and nothing else. -/
theorem Inv.pushTxs_linked (h : b.Inv) {c : ConnId} {id : UInt16} (hc : b.bankOf c = none)
    (hid : ∀ k, b.bankOf k ≠ some id) :
    ((b.setBank c (some id)).linkAll c b.mappings).pushTxs c =
      (b.ofBank id).filterMap b.createTx := by
  rw [pushTxs, h.linked_spec c hid]
  show (b.maps c .mapsNew ++ _).filterMap b.createTx ++
    (b.maps c .mapsDelreq ++ _).filterMap b.removeTx = _
  rw [h.maps_eq_nil hc, h.maps_eq_nil hc, if_pos rfl, if_neg (by simp)]
  simp only [List.nil_append, List.filterMap_nil, List.append_nil]

end Book

/-! ### Events -/

/-- The book, the bank connections whose FSM runs, and the state of the eventfd. -/
structure Ledger extends Book where
  live : ConnId → Bool
  pending : Bool

/-- The effects of atomic server steps.  `conn` is the lookup of a bank's connection. -/
inductive Event where
  | quiet
  | post (bank : BankSlot) (client : ClientSlot) (dst : Option ConnId)
  | marks (conn : UInt16 → Option ConnId) (ms : List MapId)
  | eventFd (cs : List ConnId)
  | push (c : ConnId)
  | connect (c : ConnId) (id : UInt16)
  | drop (c : ConnId)
  | kill (c : ConnId)
  | ack (c : ConnId)
  | unmap (c : ConnId)

/-- The identities of the connected banks after an event. -/
def Event.banks (f : ConnId → Option UInt16) : Event → ConnId → Option UInt16
  | .connect c id => Function.update f c (some id)
  | .drop c => Function.update f c none
  | _ => f

namespace Ledger

variable (g : Ledger)

/-- The ledger after an event. -/
def apply : Event → Ledger
  | .quiet => g
  | .post bank client dst =>
      { g with
        toBook := g.toBook.post bank client dst
        pending := g.pending || ((g.slotmapAdd bank client).isSome && dst.isSome) }
  | .marks conn ms => { g with toBook := g.toBook.markAll conn ms, pending := true }
  | .eventFd cs => { g with toBook := g.toBook.pushAll cs, pending := false }
  | .push c => { g with toBook := g.toBook.push c }
  | .connect c id =>
      { g with toBook := g.toBook.connect c id, live := Function.update g.live c true }
  | .drop c => { g with toBook := g.toBook.drop c, live := Function.update g.live c false }
  | .kill c => { g with live := Function.update g.live c false }
  | .ack c => { g with toBook := g.toBook.ack c }
  | .unmap c => { g with toBook := g.toBook.unmap c }

/-- The requests an event sends on a connection. -/
def requests : Event → ConnId → List Tx
  | .push c, k => if k = c then g.pushTxs c else []
  | .eventFd cs, k => if k ∈ cs then g.pushTxs k else []
  | .connect c id, k => if k = c then (g.ofBank id).filterMap g.createTx else []
  | _, _ => []

/-- The event can happen: lookups find the connections of the banks, a bank is accepted only
when its identity is free, and pushes go to running bank connections. -/
def Valid : Event → Prop
  | .post bank _ dst => ∀ k, dst = some k ↔ g.bankOf k = some bank.bankId
  | .marks conn ms => (∀ i k, conn i = some k ↔ g.bankOf k = some i) ∧ ms.Nodup ∧
      ∀ m ∈ ms, m ∈ g.mappings
  | .eventFd cs => g.pending = true ∧ cs.Nodup ∧
      ∀ c, c ∈ cs ↔ g.live c = true ∧ (g.maps c .mapsNew = [] ∨ g.maps c .mapsDelreq = [])
  | .push c => g.live c = true
  | .connect c id => g.bankOf c = none ∧ ∀ k, g.bankOf k ≠ some id
  | .ack c => g.live c = true ∧ g.maps c .mapsUnack ≠ []
  | .unmap c => g.live c = true ∧ g.maps c .mapsDeleting ≠ []
  | _ => True

variable {g}

theorem bankOf_apply (g : Ledger) (ev : Event) : (g.apply ev).bankOf = ev.banks g.bankOf := by
  cases ev with
  | quiet => rfl
  | post bank client dst =>
      show (g.toBook.post bank client dst).bankOf = g.bankOf
      unfold Book.post
      split
      · rfl
      · simp only
        split <;> rfl
  | marks conn ms => exact Book.markAll_bankOf conn ms g.toBook
  | eventFd cs => exact Book.pushAll_bankOf cs g.toBook
  | push c => exact Book.push_bankOf c
  | connect c id =>
      show (Book.push _ c).bankOf = _
      rw [Book.push_bankOf, Book.linkAll_bankOf]
      rfl
  | drop c =>
      show Function.update (g.toBook.unlinkAll c).bankOf c none = _
      rw [Book.unlinkAll_bankOf]
      rfl
  | kill c => rfl
  | ack c =>
      show (g.toBook.ack c).bankOf = g.bankOf
      unfold Book.ack
      split <;> rfl
  | unmap c =>
      show (g.toBook.unmap c).bankOf = g.bankOf
      unfold Book.unmap
      split <;> rfl

/-- **Every event keeps the bookkeeping invariant.** -/
theorem inv_apply (h : g.toBook.Inv) {ev : Event} (hv : g.Valid ev) :
    (g.apply ev).toBook.Inv := by
  cases ev with
  | quiet => exact h
  | post bank client dst => exact h.post bank client hv
  | marks conn ms => exact Book.Inv.markAll ms h hv.1
  | eventFd cs => exact h.pushAll cs
  | push c => exact h.push c
  | connect c id => exact h.connect hv.1 hv.2
  | drop c => exact h.drop c
  | kill c => exact h
  | ack c => exact h.ack c
  | unmap c => exact h.unmap c

end Ledger

end Remsim
