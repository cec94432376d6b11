import Remsim.Ledger

/-! # Requests that await their response

The server sends two kinds of requests to a bank and moves the mapping of each to the tail of a
list: `maps_unack` for create requests, `maps_deleting` for remove requests.  `Book.pend` is the
sequence of requests that such a list stands for.

`pend_apply` is the step lemma: an event appends to the sequence exactly the requests it sends on
the connection, unless it is the response that takes the head off (`pend_ack`, `pend_unmap`) or the
connection comes or goes. -/

namespace Remsim

/-- The two kinds of requests. -/
inductive ReqKind where
  | create
  | remove
deriving DecidableEq, Repr

/-- The list of mappings whose request awaits its response. -/
def ReqKind.list : ReqKind → BankList
  | .create => .mapsUnack
  | .remove => .mapsDeleting

/-- The list of mappings whose request is to be sent. -/
def ReqKind.queue : ReqKind → BankList
  | .create => .mapsNew
  | .remove => .mapsDelreq

/-- The kind of request a PDU is. -/
def Tx.kind (t : Tx) : Option ReqKind :=
  match t.pdu with
  | .createMappingReq _ _ => some .create
  | .removeMappingReq _ _ => some .remove
  | _ => none

/-- The slot pair a request names. -/
def Tx.slots (t : Tx) : Option (BankSlot × ClientSlot) :=
  match t.pdu with
  | .createMappingReq client bank => some (rspro2bankSlot bank, rspro2clientSlot client)
  | .removeMappingReq client bank => some (rspro2bankSlot bank, rspro2clientSlot client)
  | _ => none

/-- The PDU is a request of the given kind. -/
def Tx.isKind (k : ReqKind) (t : Tx) : Bool := decide (t.kind = some k)

theorem Tx.filter_isKind (k : ReqKind) (ts : List Tx) :
    ts.filter (Tx.isKind k) = (ts.filter Tx.isRequest).filter (Tx.isKind k) := by
  rw [List.filter_filter]
  refine List.filter_congr fun t _ => ?_
  obtain ⟨pdu, about⟩ := t
  cases pdu <;> cases k <;> rfl

namespace Book

variable (b : Book)

/-- The request of a kind for a mapping. -/
def tx : ReqKind → MapId → Option Tx
  | .create => b.createTx
  | .remove => b.removeTx

/-- The requests of a kind that await their response, as the lists of the server have them. -/
def pend (c : ConnId) (k : ReqKind) : List Tx := (b.maps c k.list).filterMap (b.tx k)

variable {b} {b' : Book}

theorem tx_congr {k : ReqKind} {m : MapId} (h : b'.slotsOf m = b.slotsOf m) :
    b'.tx k m = b.tx k m := by
  cases k with
  | create => exact createTx_congr h
  | remove => exact removeTx_congr h

theorem tx_spec {k : ReqKind} {m : MapId} {t : Tx} (h : b.tx k m = some t) :
    t.kind = some k ∧ t.about = some m ∧ t.slots = b.slotsOf m := by
  cases k with
  | create =>
      obtain ⟨x, hx, rfl⟩ := Option.map_eq_some_iff.mp h
      exact ⟨rfl, rfl, by simp [Tx.slots, slotmap2CreateMappingReq, slotsOf, hx, SlotMapping.slots]⟩
  | remove =>
      obtain ⟨x, hx, rfl⟩ := Option.map_eq_some_iff.mp h
      exact ⟨rfl, rfl, by simp [Tx.slots, slotmap2RemoveMappingReq, slotsOf, hx, SlotMapping.slots]⟩

theorem tx_some {k : ReqKind} {m : MapId} {x : SlotMapping} (h : b.heap m = some x) :
    ∃ t, b.tx k m = some t := by
  cases k with
  | create => exact ⟨_, by show Option.map _ (b.heap m) = _; rw [h]; rfl⟩
  | remove => exact ⟨_, by show Option.map _ (b.heap m) = _; rw [h]; rfl⟩

theorem map_filterMap_tx_of_alloc {k : ReqKind} {ms : List MapId}
    (h : ∀ m ∈ ms, ∃ x, b.heap m = some x) :
    (ms.filterMap (b.tx k)).map Tx.slots = ms.map b.slotsOf ∧
      (ms.filterMap (b.tx k)).map Tx.about = ms.map some := by
  induction ms with
  | nil => exact ⟨rfl, rfl⟩
  | cons m ms ih =>
      obtain ⟨x, hx⟩ := h m List.mem_cons_self
      obtain ⟨t, ht⟩ := tx_some (k := k) hx
      obtain ⟨_, h₂, h₃⟩ := tx_spec ht
      obtain ⟨i₁, i₂⟩ := ih fun a ha => h a (List.mem_cons_of_mem _ ha)
      rw [List.filterMap_cons_some ht]
      simp only [List.map_cons, h₂, h₃, i₁, i₂, and_self]

theorem filter_filterMap_tx (k k' : ReqKind) (ms : List MapId) :
    (ms.filterMap (b.tx k)).filter (Tx.isKind k') =
      if k = k' then ms.filterMap (b.tx k) else [] := by
  have hk : ∀ t ∈ ms.filterMap (b.tx k), t.kind = some k := by
    intro t ht
    obtain ⟨m, _, hm⟩ := List.mem_filterMap.mp ht
    exact (tx_spec hm).1
  split_ifs with h
  · rw [List.filter_eq_self]
    intro t ht
    simp [Tx.isKind, hk t ht, h]
  · rw [List.filter_eq_nil_iff]
    intro t ht
    simp [Tx.isKind, hk t ht, h]

theorem filter_pushTxs_kind (c : ConnId) (k : ReqKind) :
    (b.pushTxs c).filter (Tx.isKind k) = (b.maps c k.queue).filterMap (b.tx k) := by
  have hsplit : b.pushTxs c = (b.maps c .mapsNew).filterMap (b.tx .create) ++
      (b.maps c .mapsDelreq).filterMap (b.tx .remove) := rfl
  rw [hsplit, List.filter_append, filter_filterMap_tx, filter_filterMap_tx]
  cases k <;> simp [ReqKind.queue]

/-- The list and the slot pairs of its mappings are as before. -/
def Keeps (b b' : Book) (c : ConnId) (l : BankList) : Prop :=
  b'.maps c l = b.maps c l ∧ ∀ m ∈ b.maps c l, b'.slotsOf m = b.slotsOf m

theorem Keeps.refl (b : Book) (c : ConnId) (l : BankList) : Keeps b b c l := ⟨rfl, fun _ _ => rfl⟩

theorem Keeps.trans {b₁ b₂ b₃ : Book} {c : ConnId} {l : BankList} (h : Keeps b₁ b₂ c l)
    (h' : Keeps b₂ b₃ c l) : Keeps b₁ b₃ c l :=
  ⟨h'.1.trans h.1, fun m hm => (h'.2 m (by rw [h.1]; exact hm)).trans (h.2 m hm)⟩

theorem filterMap_tx_congr {k : ReqKind} {ms : List MapId}
    (h : ∀ m ∈ ms, b'.slotsOf m = b.slotsOf m) :
    ms.filterMap (b'.tx k) = ms.filterMap (b.tx k) :=
  List.filterMap_congr fun m hm => tx_congr (h m hm)

theorem Keeps.pend {c : ConnId} {k : ReqKind} (h : Keeps b b' c k.list) :
    b'.pend c k = b.pend c k := by
  unfold Book.pend
  rw [h.1, filterMap_tx_congr h.2]

/-! ### The lists that an operation leaves alone -/

theorem keeps_free {m : MapId} {c : ConnId} {l : BankList} (hm : m ∉ b.maps c l) :
    Keeps b (b.free m) c l := by
  refine ⟨ListLib.filter_ne_of_not_mem hm, fun a ha => ?_⟩
  have hne : a ≠ m := fun e => hm (e ▸ ha)
  unfold slotsOf
  exact congrArg _ (Slotmaps.slotmapDel_heap_of_ne hne)

theorem keeps_stateChange {m : MapId} {st : SlotMappingState} {dst : Option (ConnId × BankList)}
    {c : ConnId} {l : BankList} (hm : m ∉ b.maps c l) (hdst : dst ≠ some (c, l)) :
    Keeps b (b.stateChange m st dst) c l := by
  refine ⟨?_, fun a _ => slotsOf_stateChange m a st dst⟩
  show (b.maps c l).filter (· ≠ m) ++ _ = _
  rw [if_neg hdst, List.append_nil]
  exact ListLib.filter_ne_of_not_mem hm

/-- A deletion request leaves the mappings alone whose request awaits its response. -/
theorem Inv.keeps_mark (h : b.Inv) {conn : UInt16 → Option ConnId}
    (hconn : ∀ i k, conn i = some k ↔ b.bankOf k = some i) (m : MapId) (c : ConnId)
    (k : ReqKind) : Keeps b (b.mark conn m) c k.list := by
  have hoff : ∀ x, b.heap m = some x → x.state = .new ∨ x.state = .active →
      m ∉ b.maps c k.list := by
    intro x hx hst hm
    have := h.state_of_mem hm hx
    rw [this] at hst
    cases k <;> rcases hst with hst | hst <;> cases hst
  cases hx : b.heap m with
  | none => rw [mark_none hx]; exact Keeps.refl b c _
  | some x =>
      by_cases hn : x.state = .new
      · rw [mark_new hx hn]
        exact keeps_free (b := b.hide m) (hoff x hx (.inl hn))
      · by_cases ha : x.state = .active
        · obtain ⟨c', hc, _⟩ := h.conn_of_active hconn hx ha
          rw [mark_active hx ha hc]
          refine keeps_stateChange (b := b.hide m) (hoff x hx (.inr ha)) ?_
          cases k <;> simp [ReqKind.list]
        · rw [mark_other hx hn ha]
          exact Keeps.refl b c _

theorem Inv.keeps_markAll {conn : UInt16 → Option ConnId} (c : ConnId) (k : ReqKind) :
    ∀ (ms : List MapId) {b : Book}, b.Inv → (∀ i k, conn i = some k ↔ b.bankOf k = some i) →
      Keeps b (b.markAll conn ms) c k.list
  | [], b, _, _ => Keeps.refl b c _
  | m :: ms, b, h, hconn =>
      (h.keeps_mark hconn m c k).trans (Inv.keeps_markAll c k ms (h.mark hconn m)
        fun i k => by rw [mark_bankOf]; exact hconn i k)

theorem Inv.keeps_post (h : b.Inv) (bank : BankSlot) (client : ClientSlot) (dst : Option ConnId)
    (c : ConnId) (k : ReqKind) : Keeps b (b.post bank client dst) c k.list := by
  cases ha : b.slotmapAdd bank client with
  | none => rw [post_of_none ha]; exact Keeps.refl b c _
  | some r =>
      obtain ⟨hsm, _, hmaps⟩ := h.post_spec ha dst
      refine ⟨?_, fun m hm => ?_⟩
      · rw [hmaps, if_neg (by cases k <;> simp [ReqKind.list]), List.append_nil]
      · obtain ⟨x, hx⟩ := h.heap_of_mem hm
        have hne : m ≠ b.next := Nat.ne_of_lt (h.wf.fresh m x hx)
        unfold slotsOf
        rw [hsm, Slotmaps.alloc_heap_of_ne hne]

theorem Inv.keeps_drop (h : b.Inv) {c c' : ConnId} (hne : c ≠ c') (l : BankList) :
    Keeps b (b.drop c') c l := by
  obtain ⟨_, _, _, hmaps, hheap⟩ := h.unlinkAll_spec c'
  refine ⟨by show (b.unlinkAll c').maps c l = _; rw [hmaps, if_neg hne], fun m hm => ?_⟩
  have hD : ¬ b.Doomed c' m := by
    rintro (hd | hd) <;> exact hne (h.unique hm hd).1
  have hR : ¬ b.Retained c' m := by
    rintro (hr | hr | hr) <;> exact hne (h.unique hm hr).1
  show Option.map _ ((b.unlinkAll c').heap m) = Option.map _ (b.heap m)
  rw [hheap, if_neg hD, if_neg hR]

theorem slotsOf_ack (c : ConnId) (a : MapId) : (b.ack c).slotsOf a = b.slotsOf a := by
  unfold Book.ack
  cases b.maps c .mapsUnack with
  | nil => rfl
  | cons m ms => exact slotsOf_stateChange m a _ _

theorem slotsOf_linkAll (c : ConnId) (a : MapId) :
    ∀ (ms : List MapId) (b : Book), (b.linkAll c ms).slotsOf a = b.slotsOf a
  | [], _ => rfl
  | m :: ms, b => by
      show ((if _ then _ else b).linkAll c ms).slotsOf a = _
      rw [slotsOf_linkAll c a ms]
      split_ifs
      · exact slotsOf_stateChange m a _ _
      · rfl

theorem slotsOf_connect (c : ConnId) (id : UInt16) (a : MapId) :
    (b.connect c id).slotsOf a = b.slotsOf a := by
  unfold Book.connect
  rw [slotsOf_push, slotsOf_linkAll]
  rfl

/-! ### Effect of the operations on the pending requests -/

theorem Inv.pend_push (h : b.Inv) (c : ConnId) (k : ReqKind) :
    (b.push c).pend c k = b.pend c k ++ (b.maps c k.queue).filterMap (b.tx k) := by
  unfold Book.pend
  rw [filterMap_tx_congr (fun m _ => slotsOf_push c m), h.push_maps, if_pos rfl]
  cases k
  · exact List.filterMap_append
  · exact List.filterMap_append

theorem Inv.keeps_push (h : b.Inv) {c c' : ConnId} (hne : c ≠ c') (l : BankList) :
    Keeps b (b.push c') c l :=
  ⟨by rw [h.push_maps, if_neg hne], fun m _ => slotsOf_push c' m⟩

theorem Inv.pend_pushAll (h : b.Inv) {cs : List ConnId} (hnd : cs.Nodup) (c : ConnId)
    (k : ReqKind) : (b.pushAll cs).pend c k =
      b.pend c k ++ (if c ∈ cs then (b.maps c k.queue).filterMap (b.tx k) else []) := by
  have hslots : ∀ m, (b.pushAll cs).slotsOf m = b.slotsOf m := fun m => slotsOf_pushAll m cs b
  split_ifs with hc
  · rw [← h.pend_push c k]
    unfold Book.pend
    rw [filterMap_tx_congr (fun m _ => hslots m), h.pushAll_maps cs hnd, if_pos hc,
      filterMap_tx_congr fun m _ => slotsOf_push (b := b) c m]
  · rw [List.append_nil]
    exact Keeps.pend ⟨by rw [h.pushAll_maps cs hnd, if_neg hc], fun m _ => hslots m⟩

theorem Inv.pend_connect (h : b.Inv) {c : ConnId} {id : UInt16} (hc : b.bankOf c = none)
    (hid : ∀ k, b.bankOf k ≠ some id) (k : ReqKind) :
    (b.connect c id).pend c k =
      if k = .create then (b.ofBank id).filterMap b.createTx else [] := by
  unfold Book.pend
  rw [filterMap_tx_congr (fun m _ => slotsOf_connect c id m), h.connect_maps hc hid, if_pos rfl]
  cases k
  · rfl
  · rfl

theorem Inv.keeps_connect (h : b.Inv) {c c' : ConnId} {id : UInt16} (hc : b.bankOf c' = none)
    (hid : ∀ k, b.bankOf k ≠ some id) (hne : c ≠ c') (l : BankList) :
    Keeps b (b.connect c' id) c l :=
  ⟨by rw [h.connect_maps hc hid, if_neg hne], fun m _ => slotsOf_connect c' id m⟩

/-- A create response acknowledges the first pending create request of its connection and
touches no other list of requests. -/
theorem Inv.ack_spec (h : b.Inv) {c : ConnId} {m : MapId} {ms : List MapId}
    (hm : b.maps c .mapsUnack = m :: ms) :
    (b.ack c).maps c .mapsUnack = ms ∧
      ∀ k l, (k, l) ≠ (c, .mapsUnack) → l ≠ .mapsActive → Keeps b (b.ack c) k l := by
  have hack : b.ack c = b.stateChange m .active (some (c, .mapsActive)) := by
    unfold Book.ack
    rw [hm]
  have hin : m ∈ b.maps c .mapsUnack := by rw [hm]; exact List.mem_cons_self
  refine ⟨?_, fun k l hkl hl => ?_⟩
  · rw [hack]
    show (b.maps c .mapsUnack).filter (· ≠ m) ++ _ = _
    rw [if_neg (by simp), List.append_nil, hm]
    exact ListLib.filter_ne_head (hm ▸ h.nodup c .mapsUnack)
  · rw [hack]
    refine keeps_stateChange (fun hm' => ?_) fun e => ?_
    · obtain ⟨rfl, rfl⟩ := h.unique hm' hin
      exact hkl rfl
    · exact hl (Prod.mk.inj (Option.some.inj e)).2.symm

/-- A remove response frees the first mapping being deleted and touches no other list. -/
theorem Inv.unmap_spec (h : b.Inv) {c : ConnId} {m : MapId} {ms : List MapId}
    (hm : b.maps c .mapsDeleting = m :: ms) :
    (b.unmap c).maps c .mapsDeleting = ms ∧
      ∀ k l, (k, l) ≠ (c, .mapsDeleting) → Keeps b (b.unmap c) k l := by
  have hun : b.unmap c = b.free m := by
    unfold Book.unmap
    rw [hm]
  have hin : m ∈ b.maps c .mapsDeleting := by rw [hm]; exact List.mem_cons_self
  refine ⟨?_, fun k l hkl => ?_⟩
  · rw [hun]
    show (b.maps c .mapsDeleting).filter (· ≠ m) = _
    rw [hm]
    exact ListLib.filter_ne_head (hm ▸ h.nodup c .mapsDeleting)
  · rw [hun]
    refine keeps_free fun hm' => ?_
    obtain ⟨rfl, rfl⟩ := h.unique hm' hin
    exact hkl rfl

theorem Inv.pend_ack (h : b.Inv) {c : ConnId} (hne : b.maps c .mapsUnack ≠ []) :
    (b.ack c).pend c .create = (b.pend c .create).tail := by
  cases hm : b.maps c .mapsUnack with
  | nil => exact absurd hm hne
  | cons m ms =>
      obtain ⟨x, hx⟩ := h.heap_of_mem (c := c) (l := .mapsUnack) (hm ▸ List.mem_cons_self)
      obtain ⟨t, ht⟩ := tx_some (k := .create) hx
      unfold Book.pend ReqKind.list
      rw [filterMap_tx_congr (fun a _ => slotsOf_ack c a), (h.ack_spec hm).1, hm,
        List.filterMap_cons_some ht, List.tail_cons]

theorem Inv.pend_unmap (h : b.Inv) {c : ConnId} (hne : b.maps c .mapsDeleting ≠ []) :
    (b.unmap c).pend c .remove = (b.pend c .remove).tail := by
  cases hm : b.maps c .mapsDeleting with
  | nil => exact absurd hm hne
  | cons m ms =>
      have hin : m ∈ b.maps c .mapsDeleting := hm ▸ List.mem_cons_self
      have hnd : (m :: ms).Nodup := hm ▸ h.nodup c .mapsDeleting
      obtain ⟨x, hx⟩ := h.heap_of_mem hin
      obtain ⟨t, ht⟩ := tx_some (k := .remove) hx
      have hun : b.unmap c = b.free m := by
        unfold Book.unmap
        rw [hm]
      unfold Book.pend ReqKind.list
      rw [(h.unmap_spec hm).1, hm, List.filterMap_cons_some ht, List.tail_cons]
      refine filterMap_tx_congr fun a ha => ?_
      have hne : a ≠ m := fun e => (List.nodup_cons.mp hnd).1 (e ▸ ha)
      rw [hun]
      exact congrArg _ (Slotmaps.slotmapDel_heap_of_ne hne)

end Book

namespace Ledger

variable {g : Ledger}

/-- **An event appends to the pending requests of a connection those it sends there**, unless
it is a response on that connection or the connection comes or goes. -/
theorem pend_apply (h : g.toBook.Inv) {ev : Event} (hv : g.Valid ev) {c : ConnId} (k : ReqKind)
    (hack : ev = .ack c → k = .remove) (hun : ev = .unmap c → k = .create)
    (hcon : ∀ id, ev ≠ .connect c id) (hdrop : ev ≠ .drop c) :
    (g.apply ev).pend c k = g.pend c k ++ (g.requests ev c).filter (Tx.isKind k) := by
  have keep : ∀ b', Book.Keeps g.toBook b' c k.list → b'.pend c k = g.pend c k ++ [] := by
    intro b' hk
    rw [List.append_nil]
    exact hk.pend
  cases ev with
  | quiet => exact (List.append_nil _).symm
  | post bank client dst => exact keep _ (h.keeps_post bank client dst c k)
  | marks conn ms => exact keep _ (Book.Inv.keeps_markAll c k ms h hv.1)
  | eventFd cs =>
      refine (h.pend_pushAll hv.2.1 c k).trans ?_
      show _ = _ ++ List.filter _ (if c ∈ cs then g.pushTxs c else [])
      split_ifs
      · rw [Book.filter_pushTxs_kind]
      · rfl
  | push c' =>
      show (g.toBook.push c').pend c k = _ ++ List.filter _ (if c = c' then g.pushTxs c' else [])
      by_cases e : c = c'
      · subst e
        rw [if_pos rfl, Book.filter_pushTxs_kind]
        exact h.pend_push c k
      · rw [if_neg e]
        exact keep _ (h.keeps_push e k.list)
  | connect c' id =>
      have e : c ≠ c' := fun e => hcon id (e ▸ rfl)
      show _ = _ ++ List.filter _ (if c = c' then _ else [])
      rw [if_neg e]
      exact keep _ (h.keeps_connect hv.1 hv.2 e k.list)
  | drop c' =>
      have e : c ≠ c' := fun e => hdrop (e ▸ rfl)
      exact keep _ (h.keeps_drop e k.list)
  | kill c' => exact (List.append_nil _).symm
  | ack c' =>
      cases hm : g.maps c' .mapsUnack with
      | nil => exact absurd hm hv.2
      | cons m ms =>
          refine keep _ ((h.ack_spec hm).2 c k.list ?_ (by cases k <;> decide))
          rintro e
          obtain ⟨rfl, hl⟩ := Prod.mk.inj e
          rw [hack rfl] at hl
          cases hl
  | unmap c' =>
      cases hm : g.maps c' .mapsDeleting with
      | nil => exact absurd hm hv.2
      | cons m ms =>
          refine keep _ ((h.unmap_spec hm).2 c k.list ?_)
          rintro e
          obtain ⟨rfl, hl⟩ := Prod.mk.inj e
          rw [hun rfl] at hl
          cases hl

end Ledger

end Remsim
