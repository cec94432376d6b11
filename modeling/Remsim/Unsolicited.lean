import Remsim.Memory

/-! # Responses that nobody asked for (`rspro_server.c`)

`clnt_st_connected_bankd()` takes the mapping that a `createMappingRes` or `removeMappingRes` is
about from `llist_first_entry()` of `maps_unack` or `maps_deleting`, and tests the result against
`NULL`.  The first entry of an empty list is not `NULL`: it is the list head itself, taken for the
`bank_list` of a mapping.

The handlers are those of the source on the memory of `Remsim.Memory`.

* `Image.handleCreateMappingRes_simulates` and `Image.handleRemoveMappingRes_simulates`: with a
  mapping in the list they do what they do on a `Server`.
* `Image.unsolicited_harmful`: with an empty list a response is never without effect. -/

namespace Remsim

/-- How the process ends, or leaves defined behaviour, in the handlers. -/
inductive Crash where
  | fault (f : Fault)
  | notALock
  | notAChunk
deriving DecidableEq, Repr

/-- The server with its slot maps and bank lists in memory.  `chunks` are the mappings that talloc
has allocated; of `srv` the slot maps and the bank lists are not used. -/
structure Image where
  mem : Mem
  chunks : ℕ → Bool
  srv : Server

namespace Server

/-- The server with other slot maps and bank lists. -/
def withLists (s : Server) (sm : Slotmaps) (maps : ConnId → BankList → List MapId) : Server :=
  { s with toSlotmaps := sm, maps := maps }

end Server

namespace Image

variable (L : Layout) (poison : ℕ × ℕ) (img : Image) (c : ConnId)

/-- `slotmap_del()`: the lock of `maps` is taken, the mapping unlinked and freed. -/
def slotmapDel (maps map : ℕ) : Except Crash Image :=
  if maps ≠ L .slotmaps then .error .notALock
  else if img.chunks map = false then .error .notAChunk
  else .ok { img with
    mem := img.mem.slotmapUnlink poison map
    chunks := Function.update img.chunks map false }

/-- `_update_client_for_slotmap()` with the mapping at an address. -/
def updateClientForSlotmap (map : ℕ) : Except Crash Image :=
  match img.srv.updateClientForSlotmap (img.mem.mappingAt map) (some c) with
  | .error f => .error (.fault f)
  | .ok srv => .ok { img with srv := srv }

/-- `clnt_st_connected_bankd()`, event `CLNTC_E_CREATE_MAP_RES`. -/
def createMapRes : Except Crash Image :=
  let map := Mem.containerOf (Mem.links.next img.mem (L.head c .mapsUnack))
  if map = 0 then .ok img
  else
    let mem := img.mem.slotmapStateChange poison map .active (some (L.head c .mapsActive))
    { img with mem := mem }.updateClientForSlotmap c map

/-- `clnt_st_connected_bankd()`, event `CLNTC_E_REMOVE_MAP_RES`. -/
def removeMapRes : Except Crash Image :=
  let map := Mem.containerOf (Mem.links.next img.mem (L.head c .mapsDeleting))
  if map = 0 then .ok img
  else if img.mem.stateOf map ≠ SlotMappingState.deleting.code then .error (.fault .assertion)
  else do
    let img ← img.updateClientForSlotmap c map
    img.slotmapDel L poison (img.mem.mapsOf map) map

/-- `handle_rx_rspro()` of a `createMappingRes`. -/
def handleCreateMappingRes : Except Crash Image :=
  if img.srv.accepts c .createMapRes then img.createMapRes L poison c else .ok img

/-- `handle_rx_rspro()` of a `removeMappingRes`. -/
def handleRemoveMappingRes : Except Crash Image :=
  if img.srv.accepts c .removeMapRes then img.removeMapRes L poison c else .ok img

/-- The image is that of the server. -/
structure Rep (s : Server) : Prop where
  rest : img.srv.withLists s.toSlotmaps s.maps = s
  apart : s.LaidOut L
  holds : s.Holds L img.mem
  chunks : ∀ a, img.chunks a = true ↔ ∃ m, s.Live (.mapping m) ∧ a = L (.mapping m)

/-- The results agree. -/
def Simulates (r : Except Crash Image) (r' : Except Fault Server) : Prop :=
  match r' with
  | .ok s => ∃ img, r = .ok img ∧ img.Rep L s
  | .error f => r = .error (.fault f)

end Image

/-! ### Updates of clients -/

namespace Server

variable {s s' : Server} {L : Layout} {mem : Mem}

theorem clntStConnectedClient_withLists (s : Server) (sm : Slotmaps)
    (maps : ConnId → BankList → List MapId) (c : ConnId) :
    (s.withLists sm maps).clntStConnectedClient c =
      (s.clntStConnectedClient c).withLists sm maps := by
  have hconns : (s.withLists sm maps).conns c = s.conns c := rfl
  unfold Server.clntStConnectedClient
  rw [hconns]
  cases s.conns c <;> rfl

theorem updateClientForSlotmap_withLists (sm : Slotmaps)
    (maps : ConnId → BankList → List MapId) (x : SlotMapping) (bc : Option ConnId) :
    (s.withLists sm maps).updateClientForSlotmap x bc =
      (s.updateClientForSlotmap x bc).map fun s => s.withLists sm maps := by
  cases hc : s.clientConnBySlot x.client with
  | none =>
      rw [updateClientForSlotmap_none hc, updateClientForSlotmap_none (s := s.withLists sm maps) hc]
      rfl
  | some c =>
      rw [updateClientForSlotmap_eq hc, updateClientForSlotmap_eq (s := s.withLists sm maps) hc]
      change (s.bankdAddr x (bc <|> s.bankdConnById x.bank.bankId)).map _ = _
      cases s.bankdAddr x (bc <|> s.bankdConnById x.bank.bankId) with
      | error f => rfl
      | ok addr =>
          cases addr with
          | none => rfl
          | some a =>
              refine congrArg Except.ok ?_
              obtain ⟨ip, port⟩ := a
              dsimp only
              rw [apply_ite fun s : Server => s.withLists sm maps,
                ← clntStConnectedClient_withLists]
              rfl

theorem Calm.live (h : Calm s s') (o : Obj) : s'.Live o ↔ s.Live o := by
  cases o with
  | slotmaps => exact Iff.rfl
  | mapping m =>
      have : s'.heap = s.heap := congrArg Slotmaps.heap h.slotmaps
      simp only [Live, this]
  | bank c =>
      have := congrArg Option.isSome (h.roster.conns c)
      simp only [Option.isSome_map] at this
      exact Bool.eq_iff_iff.mp this

theorem Calm.holds (h : Calm s s') (hh : s.Holds L mem) : s'.Holds L mem := by
  have hheap : s'.heap = s.heap := congrArg Slotmaps.heap h.slotmaps
  have hmappings : s'.mappings = s.mappings := congrArg Slotmaps.mappings h.slotmaps
  have hlists : s'.lists = s.lists := by
    unfold lists
    simp only [h.live, hmappings, h.maps]
  have helems : s'.elems L = s.elems L := by
    funext r
    unfold elems
    rw [hmappings, h.maps]
  refine ⟨?_, hheap ▸ hh.maps, hheap ▸ hh.slots, hheap ▸ hh.state, fun c k hk => ?_⟩
  · unfold RingsIn
    rw [nodes_congr h.live, hlists, helems]
    exact hh.rings
  · obtain ⟨k', hk', hcore⟩ := h.roster.conn hk
    have hids : k'.core.bankId = k.core.bankId ∧ k'.core.numSlots = k.core.numSlots := by
      rw [hcore]
      exact ⟨rfl, rfl⟩
    have := hh.ids c k' hk'
    rw [this]
    exact congrArg₂ (fun i n : UInt16 => i.toNat + 2 ^ 16 * n.toNat) hids.1 hids.2

theorem Holds.mappingAt (h : s.Holds L mem) {m : MapId} {x : SlotMapping}
    (hx : s.heap m = some x) : mem.mappingAt (L (.mapping m)) = x := by
  unfold Mem.mappingAt
  rw [h.slots m x hx, h.state m x hx, SlotMappingState.ofCode_code]
  rfl

end Server

/-! ### Responses with a mapping -/

namespace Image

variable {L : Layout} {poison : ℕ × ℕ} {img : Image} {s : Server} {c : ConnId} {m : MapId}
  {x : SlotMapping} {ms : List MapId}

theorem Rep.first_entry (h : img.Rep L s) (hg : s.Good) {l : BankList}
    (hl : s.maps c l = m :: ms) :
    Mem.containerOf (Mem.links.next img.mem (L.head c l)) = L (.mapping m) := by
  have hm := hg.live_of_mem (hl ▸ List.mem_cons_self : m ∈ s.maps c l)
  have hring := h.holds.rings.ring (.bank c l) ⟨hm.2, trivial⟩
  simp only [Server.elems, hl, List.map_cons] at hring
  have hnext : Mem.links.next img.mem (L.head c l) = Mem.bankList (L (.mapping m)) :=
    hring.next_head
  rw [hnext]
  exact Nat.add_sub_cancel ..

theorem Rep.mapping_ne_zero (h : img.Rep L s) (hm : s.Live (.mapping m)) :
    L (.mapping m) ≠ 0 := by
  have := h.apart.high _ hm
  omega

theorem updateClientForSlotmap_simulates (h : img.Rep L s) (hx : s.heap m = some x) :
    Simulates L (img.updateClientForSlotmap c (L (.mapping m)))
      (s.updateClientForSlotmap x (some c)) := by
  have hmap := h.holds.mappingAt hx
  have hlists := Server.updateClientForSlotmap_withLists (s := img.srv) s.toSlotmaps s.maps x
    (some c)
  rw [h.rest] at hlists
  unfold updateClientForSlotmap
  rw [hmap]
  cases hr : img.srv.updateClientForSlotmap x (some c) with
  | error f =>
      rw [hr] at hlists
      rw [hlists]
      rfl
  | ok srv =>
      rw [hr] at hlists
      have hcalm := Server.updateClientForSlotmap_calm hlists
      rw [hlists]
      refine ⟨_, rfl, rfl, h.apart.mono fun o => (hcalm.live o).mp, hcalm.holds h.holds, ?_⟩
      simp only [hcalm.live]
      exact h.chunks

/-- With a mapping in `maps_unack` the handler does what it does on the server. -/
theorem createMapRes_simulates (h : img.Rep L s) (hg : s.Good)
    (hl : s.maps c .mapsUnack = m :: ms) :
    Simulates L (img.createMapRes L poison c) (s.createMapRes c) := by
  obtain ⟨hm, hc⟩ := hg.live_of_mem (hl ▸ List.mem_cons_self : m ∈ s.maps c .mapsUnack)
  obtain ⟨x, hx⟩ := Option.isSome_iff_exists.mp hm
  let s₁ := s.slotmapStateChange m .active (some (c, .mapsActive))
  let mem₁ := img.mem.slotmapStateChange poison (L (.mapping m)) .active
    (some (L.head c .mapsActive))
  have hlive : ∀ o, s₁.Live o ↔ s.Live o := s.live_slotmapStateChange _ _
  have hrep : Rep L { img with mem := mem₁ } s₁ := by
    refine ⟨?_, h.apart.mono fun o => (hlive o).mp, ?_, ?_⟩
    · show _ = s₁
      simp only [s₁]
      rw [← h.rest]
      rfl
    · exact h.holds.slotmapStateChange hg h.apart hx poison .active fun _ _ e => by cases e; exact hc
    · simp only [hlive]
      exact h.chunks
  have hx₁ : s₁.heap m = some { x with state := .active } := by
    simp [s₁, Server.slotmapStateChange, hx]
  have hcode : img.createMapRes L poison c =
      { img with mem := mem₁ }.updateClientForSlotmap c (L (.mapping m)) := by
    unfold createMapRes
    rw [h.first_entry hg hl, if_neg (h.mapping_ne_zero hm)]
  have hserver : s.createMapRes c = s₁.updateClientForSlotmap { x with state := .active } (some c) := by
    unfold Server.createMapRes
    simp only [hl]
    simp only [s₁] at hx₁ ⊢
    rw [hx₁]
  rw [hcode, hserver]
  exact updateClientForSlotmap_simulates hrep hx₁

theorem slotmapDel_rep (h : img.Rep L s) (hg : s.Good) (hm : s.Live (.mapping m)) :
    ∃ img', img.slotmapDel L poison (L .slotmaps) (L (.mapping m)) = .ok img' ∧
      img'.Rep L (s.slotmapFree m) := by
  have hchunk : img.chunks (L (.mapping m)) = true := (h.chunks _).mpr ⟨m, hm, rfl⟩
  refine ⟨_, by unfold slotmapDel; rw [if_neg (by simp), if_neg (by simp [hchunk])], ?_, ?_, ?_, ?_⟩
  · show _ = s.slotmapFree m
    rw [← h.rest]
    rfl
  · exact h.apart.mono fun o ho => ((Server.live_slotmapFree o).mp ho).1
  · exact h.holds.slotmapFree hg h.apart hm poison
  · intro a
    by_cases e : a = L (.mapping m)
    · subst e
      simp only [Function.update_self]
      constructor
      · intro h
        cases h
      · rintro ⟨m', hm', e⟩
        obtain ⟨hl, hne⟩ := (Server.live_slotmapFree _).mp hm'
        exact absurd (congrArg Obj.mapping (h.apart.mapping_inj hl hm e.symm)) hne
    · simp only [Function.update_of_ne e, h.chunks]
      constructor
      · rintro ⟨m', hm', rfl⟩
        exact ⟨m', (Server.live_slotmapFree _).mpr ⟨hm', fun e' => e (congrArg L e')⟩, rfl⟩
      · rintro ⟨m', hm', rfl⟩
        exact ⟨m', ((Server.live_slotmapFree _).mp hm').1, rfl⟩

theorem removeMapRes_simulates (h : img.Rep L s) (hg : s.Good)
    (hl : s.maps c .mapsDeleting = m :: ms) :
    Simulates L (img.removeMapRes L poison c) (s.removeMapRes c) := by
  obtain ⟨hm, hc⟩ := hg.live_of_mem (hl ▸ List.mem_cons_self : m ∈ s.maps c .mapsDeleting)
  obtain ⟨x, hx⟩ := Option.isSome_iff_exists.mp hm
  have hstate : x.state = .deleting :=
    hg.book.state_of_mem (l := .mapsDeleting) (hl ▸ List.mem_cons_self) hx
  have hcode : img.removeMapRes L poison c =
      (img.updateClientForSlotmap c (L (.mapping m))).bind fun img =>
        img.slotmapDel L poison (img.mem.mapsOf (L (.mapping m))) (L (.mapping m)) := by
    unfold removeMapRes
    rw [h.first_entry hg hl, if_neg (h.mapping_ne_zero hm), h.holds.state m x hx, hstate,
      if_neg (by simp)]
    rfl
  have hserver : s.removeMapRes c =
      (s.updateClientForSlotmap x (some c)).bind fun s => .ok (s.slotmapFree m) := by
    unfold Server.removeMapRes
    rw [hl]
    simp only [hx, hstate, if_true]
    rfl
  have hupdate := updateClientForSlotmap_simulates (c := c) h hx
  rw [hcode, hserver]
  cases hr : s.updateClientForSlotmap x (some c) with
  | error f =>
      rw [hr] at hupdate
      have hupdate : img.updateClientForSlotmap c (L (.mapping m)) = .error (.fault f) := hupdate
      rw [hupdate]
      rfl
  | ok s₁ =>
      rw [hr] at hupdate
      obtain ⟨img₁, himg₁, h₁⟩ := hupdate
      have hcalm := Server.updateClientForSlotmap_calm hr
      have hx₁ : s₁.heap m = some x := by
        rw [congrArg Slotmaps.heap hcalm.slotmaps]
        exact hx
      rw [himg₁]
      show ∃ img', img₁.slotmapDel L poison (img₁.mem.mapsOf (L (.mapping m))) (L (.mapping m)) =
        .ok img' ∧ img'.Rep L (s₁.slotmapFree m)
      rw [h₁.holds.maps m x hx₁]
      exact slotmapDel_rep h₁ ((hcalm.performs hg).good hg) (Server.live_of_heap hx₁)

theorem Rep.accepts (h : img.Rep L s) (ev : ClntEvent) :
    img.srv.accepts c ev = s.accepts c ev := by
  rw [← h.rest]
  rfl

/-- A `createMappingRes` with a mapping in `maps_unack` does what it does on the server. -/
theorem handleCreateMappingRes_simulates (h : img.Rep L s) (hg : s.Good)
    (hl : s.maps c .mapsUnack ≠ []) (res : ResultCode) :
    Simulates L (img.handleCreateMappingRes L poison c)
      (s.handleRxRspro c (.createMappingRes res)) := by
  obtain ⟨m, ms, hl⟩ := List.exists_cons_of_ne_nil hl
  simp only [handleCreateMappingRes, Server.handleRxRspro, h.accepts]
  split_ifs
  · exact createMapRes_simulates h hg hl
  · exact ⟨img, rfl, h⟩

/-- A `removeMappingRes` with a mapping in `maps_deleting` does what it does on the server. -/
theorem handleRemoveMappingRes_simulates (h : img.Rep L s) (hg : s.Good)
    (hl : s.maps c .mapsDeleting ≠ []) (res : ResultCode) :
    Simulates L (img.handleRemoveMappingRes L poison c)
      (s.handleRxRspro c (.removeMappingRes res)) := by
  obtain ⟨m, ms, hl⟩ := List.exists_cons_of_ne_nil hl
  simp only [handleRemoveMappingRes, Server.handleRxRspro, h.accepts]
  split_ifs
  · exact removeMapRes_simulates h hg hl
  · exact ⟨img, rfl, h⟩

/-! ### Responses without a mapping -/

/-- The states of the mappings, the global list and all bank lists are what they are on the server;
its mappings are allocated, and what it has sent is all that has been sent. -/
structure Unchanged (L : Layout) (s : Server) (img : Image) : Prop where
  state : ∀ m x, s.heap m = some x → img.mem.stateOf (L (.mapping m)) = x.state.code
  mappings : Mem.links.RingIn img.mem (L .slotmaps) (s.elems L .mappings)
  lists : ∀ c, s.Live (.bank c) → ∀ l,
    Mem.links.RingIn img.mem (L.head c l) (s.elems L (.bank c l))
  chunks : ∀ m, s.Live (.mapping m) → img.chunks (L (.mapping m)) = true
  sent : img.srv.sent = s.sent

/-- The handler returns and has changed nothing. -/
def Harmless (L : Layout) (s : Server) (r : Except Crash Image) : Prop :=
  ∃ img, r = .ok img ∧ Unchanged L s img

theorem updateClientForSlotmap_mem {img' : Image} {map : ℕ}
    (h : img.updateClientForSlotmap c map = .ok img') : img'.mem = img.mem := by
  unfold updateClientForSlotmap at h
  cases hr : img.srv.updateClientForSlotmap (img.mem.mappingAt map) (some c) with
  | error f => rw [hr] at h; cases h
  | ok srv =>
      rw [hr] at h
      cases h
      rfl

theorem Rep.empty_links (h : img.Rep L s) (hc : s.Live (.bank c)) {l : BankList}
    (hl : s.maps c l = []) :
    img.mem (L.head c l) = L.head c l ∧ img.mem (L.head c l + 8) = L.head c l := by
  have hring := h.holds.rings.ring (.bank c l) ⟨hc, trivial⟩
  simp only [Server.elems, hl, List.map_nil] at hring
  exact Llist.ring_nil.mp hring

theorem Rep.last_ne (h : img.Rep L s) (hc : s.Live (.bank c)) {l k : BankList} (hne : k ≠ l) :
    img.mem (L.head c l + 8) ≠ L.head c k := by
  have hl : ListRef.bank c l ∈ s.lists := ⟨hc, trivial⟩
  have hk : ListRef.bank c k ∈ s.lists := ⟨hc, trivial⟩
  have hout := (h.holds.rings.apart hl hk (by simpa using hne)
    (h.holds.rings.ring _ hl).prev_head_mem).2
  intro e
  apply hout
  rw [show Mem.links.prev img.mem (ListRef.head L (.bank c l)) = L.head c k from e]
  exact List.mem_cons_self

theorem Rep.first_ne (h : img.Rep L s) (hc : s.Live (.bank c)) {l : BankList} :
    img.mem (L.head c l) ≠ L .slotmaps := by
  have hl : ListRef.bank c l ∈ s.lists := ⟨hc, trivial⟩
  have hm : ListRef.mappings ∈ s.lists := ⟨trivial, trivial⟩
  have hout := (h.holds.rings.apart hl hm (by simp) (h.holds.rings.ring _ hl).next_head_mem).2
  intro e
  apply hout
  rw [show Mem.links.next img.mem (ListRef.head L (.bank c l)) = L .slotmaps from e]
  exact List.mem_cons_self

/-- Deleting a node that is its own neighbour changes no other word. -/
theorem del_single {mem : Mem} {a b : ℕ} (hnext : mem a = a) (hprev : mem (a + 8) = a)
    (hb : b ≠ a) (hb' : b ≠ a + 8) : Mem.links.del poison mem a b = mem b := by
  simp only [Llist.Links.del, Mem.links, hnext, hprev]
  rw [Mem.write_of_ne _ _ hb', Mem.write_of_ne _ _ hb, Mem.write_of_ne _ _ hb,
    Mem.write_of_ne _ _ hb']

theorem addTail_next {mem : Mem} {a head : ℕ} (hlast : mem (head + 8) ≠ a) :
    Mem.links.addTail mem a head a = head := by
  simp only [Llist.Links.addTail, Mem.links]
  rw [Mem.write_of_ne _ _ hlast.symm, Mem.write_of_ne _ _ (by omega)]
  exact Function.update_self ..

/-- A `createMappingRes` with nothing in `maps_unack` puts the head of that list at the end of
`maps_active`. -/
theorem createMapRes_empty (h : img.Rep L s) (hc : s.Live (.bank c)) (poison : ℕ × ℕ)
    (hl : s.maps c .mapsUnack = []) :
    ∃ mem, mem (L.head c .mapsUnack) = L.head c .mapsActive ∧
      img.createMapRes L poison c =
        { img with mem := mem }.updateClientForSlotmap c (L (.bank c) - 16) := by
  obtain ⟨hnext, hprev⟩ := h.empty_links hc hl
  have hlow := h.apart.high _ hc
  have hmap : Mem.containerOf (img.mem (L.head c .mapsUnack)) = L (.bank c) - 16 := by
    rw [hnext]
    simp only [Mem.containerOf, Layout.head, BankList.offset]
    omega
  refine ⟨img.mem.slotmapStateChange poison (L (.bank c) - 16) .active
    (some (L.head c .mapsActive)), ?_, ?_⟩
  · -- the word taken for the state of the mapping is the `next` of `maps_active`
    have hstate : L (.bank c) - 16 + 48 = L.head c .mapsUnack + 16 := by
      simp only [Layout.head, BankList.offset]
      omega
    have hlist : Mem.bankList (L (.bank c) - 16) = L.head c .mapsUnack := by
      simp only [Mem.bankList, Layout.head, BankList.offset]
      omega
    have hactive : L.head c .mapsActive = L.head c .mapsUnack + 16 := rfl
    have hlast := h.last_ne hc (l := .mapsActive) (k := .mapsUnack) (by decide)
    simp only [Mem.slotmapStateChange, hstate, hlist]
    apply addTail_next
    rw [hactive] at hlast ⊢
    rw [del_single]
    · rwa [Mem.writeLow_of_ne _ _ (by omega)]
    · rwa [Mem.writeLow_of_ne _ _ (by omega)]
    · rwa [Mem.writeLow_of_ne _ _ (by omega)]
    · omega
    · omega
  · unfold createMapRes
    rw [show Mem.links.next img.mem = img.mem from rfl, hmap, if_neg (by omega)]

/-- A `removeMappingRes` with nothing in `maps_deleting` ends the process: what is taken for the
state of the mapping is the identity of the bank, and the lock of what is taken for its slot maps
is none. -/
theorem removeMapRes_empty (h : img.Rep L s) {k : Conn} (hk : s.conns c = some k) (poison : ℕ × ℕ)
    (hl : s.maps c .mapsDeleting = []) :
    ∃ e, img.removeMapRes L poison c = .error e ∧
      (e = .fault .assertion ∨ (k.bankId = 4 ∧ k.numSlots = 0)) := by
  have hc : s.Live (.bank c) := Option.isSome_iff_exists.mpr ⟨k, hk⟩
  obtain ⟨hnext, _⟩ := h.empty_links hc hl
  have hlow := h.apart.high _ hc
  have hmap : Mem.containerOf (img.mem (L.head c .mapsDeleting)) = L (.bank c) + 32 := by
    rw [hnext]
    simp only [Mem.containerOf, Layout.head, BankList.offset]
    omega
  have hstate : img.mem.stateOf (L (.bank c) + 32) = k.bankId.toNat + 2 ^ 16 * k.numSlots.toNat :=
    h.holds.ids c k hk
  unfold removeMapRes
  rw [show Mem.links.next img.mem = img.mem from rfl, hmap, if_neg (by omega), hstate]
  by_cases hfour : k.bankId.toNat + 2 ^ 16 * k.numSlots.toNat = SlotMappingState.deleting.code
  · have hids : k.bankId = 4 ∧ k.numSlots = 0 := by
      simp only [SlotMappingState.code] at hfour
      constructor
      · apply UInt16.toNat_inj.mp
        show _ = 4
        omega
      · apply UInt16.toNat_inj.mp
        show _ = 0
        omega
    rw [if_neg (by simpa using hfour)]
    cases hr : img.updateClientForSlotmap c (L (.bank c) + 32) with
    | error e => exact ⟨e, rfl, .inr hids⟩
    | ok img' =>
        -- `map->maps` is the `next` of `maps_delreq`, which is a node of that list
        have hmaps : img'.mem.mapsOf (L (.bank c) + 32) = img.mem (L.head c .mapsDelreq) := by
          rw [updateClientForSlotmap_mem hr]
          rfl
        have hne := h.first_ne hc (l := .mapsDelreq)
        refine ⟨.notALock, ?_, .inr hids⟩
        show img'.slotmapDel L poison (img'.mem.mapsOf (L (.bank c) + 32)) _ = _
        rw [hmaps]
        exact if_pos hne
  · rw [if_pos (by simpa using hfour)]
    exact ⟨_, rfl, .inl rfl⟩

theorem accepts_connectedBankd (hst : s.fi c = some .connectedBankd) {ev : ClntEvent}
    (hev : ClntState.connectedBankd.inEventMask ev = true) : s.accepts c ev = true := by
  unfold Server.accepts
  rw [hst]
  exact hev

/-- On a bank connection in `CONNECTED_BANKD`, a `createMappingRes` is not harmless when nothing is
in `maps_unack`, nor is a `removeMappingRes` when nothing is in `maps_deleting`. -/
theorem unsolicited_harmful (h : img.Rep L s) (poison : ℕ × ℕ)
    (hst : s.fi c = some .connectedBankd) :
    (s.maps c .mapsUnack = [] → ¬ Harmless L s (img.handleCreateMappingRes L poison c)) ∧
      (s.maps c .mapsDeleting = [] → ¬ Harmless L s (img.handleRemoveMappingRes L poison c)) := by
  obtain ⟨k, hk, _⟩ := Option.bind_eq_some_iff.mp hst
  have hc : s.Live (.bank c) := Option.isSome_iff_exists.mpr ⟨k, hk⟩
  constructor
  · rintro hl ⟨img', hr, hsame⟩
    have hacc := (h.accepts (c := c) .createMapRes).trans (accepts_connectedBankd hst rfl)
    obtain ⟨mem, hmem, hcode⟩ := createMapRes_empty h hc poison hl
    rw [handleCreateMappingRes, if_pos hacc, hcode] at hr
    -- the head is no longer its own neighbour
    have hring := hsame.lists c hc .mapsUnack
    simp only [Server.elems, hl, List.map_nil] at hring
    have hself : img'.mem (L.head c .mapsUnack) = L.head c .mapsUnack :=
      (Llist.ring_nil.mp hring).1
    rw [updateClientForSlotmap_mem hr] at hself
    have heads : L.head c .mapsActive = L.head c .mapsUnack := hmem.symm.trans hself
    simp only [Layout.head, BankList.offset] at heads
    omega
  · rintro hl ⟨img', hr, _⟩
    have hacc := (h.accepts (c := c) .removeMapRes).trans (accepts_connectedBankd hst rfl)
    obtain ⟨e, he, _⟩ := removeMapRes_empty h hk poison hl
    rw [handleRemoveMappingRes, if_pos hacc, he] at hr
    cases hr

/-! A bankd with one mapping that it has acknowledged. -/

/-- Slot maps, mapping and `conn->bank` at three addresses. -/
def settledLayout : Layout
  | .slotmaps => 1000
  | .mapping _ => 2000
  | .bank _ => 3000

/-- Bank 1 with 8 slots is connected, and the mapping of its slot 0 to client slot 5:0 is active. -/
def settledServer : Server where
  heap := Function.update (fun _ => none) 0 (some ⟨⟨1, 0⟩, ⟨5, 0⟩, .active⟩)
  mappings := [0]
  next := 1
  conns := Function.update (fun _ => none) 0
    (some ⟨some ⟨none⟩, some .connectedBankd, 1, 8, ⟨0, 0⟩, ⟨⟨0, 0⟩, 0, 0⟩⟩)
  maps c l := if c = 0 ∧ l = .mapsActive then [0] else []
  connections := []
  clients := []
  banks := [0]
  nextConn := 1
  eventfd := false
  sent _ := []

/-- The memory of this server. -/
def settledMem : Mem
  | 1000 => 2000
  | 1008 => 2000
  | 2000 => 1000
  | 2008 => 1000
  | 2016 => 1000
  | 2024 => 1 + 5 * 2 ^ 32
  | 2032 => 3032
  | 2040 => 3032
  | 2048 => 2
  | 3000 => 3000
  | 3008 => 3000
  | 3016 => 3016
  | 3024 => 3016
  | 3032 => 2032
  | 3040 => 2032
  | 3048 => 3048
  | 3056 => 3048
  | 3064 => 3064
  | 3072 => 3064
  | 3080 => 1 + 8 * 2 ^ 16
  | _ => 0

/-- What `llist_del()` writes. -/
def settledPoison : ℕ × ℕ := (0x00100100, 0x00200200)

/-- The image of this server. -/
def settled : Image := ⟨settledMem, fun a => a = 2000, settledServer⟩

theorem settled_live {o : Obj} :
    settledServer.Live o ↔ o = .slotmaps ∨ o = .mapping 0 ∨ o = .bank 0 := by
  cases o with
  | slotmaps => simp [Server.Live]
  | mapping m => by_cases e : m = 0 <;> simp [Server.Live, settledServer, e]
  | bank c => by_cases e : c = 0 <;> simp [Server.Live, settledServer, e]

theorem settled_heap {m : MapId} {x : SlotMapping} (h : settledServer.heap m = some x) :
    m = 0 ∧ x = ⟨⟨1, 0⟩, ⟨5, 0⟩, .active⟩ := by
  obtain rfl : m = 0 := by simpa using settled_live.mp (Server.live_of_heap h)
  exact ⟨rfl, (Option.some.inj h).symm⟩

theorem settled_lists {r : ListRef} (h : r ∈ settledServer.lists) :
    r = .mappings ∨ ∃ l, r = .bank 0 l := by
  have hl := settled_live.mp h.1
  cases r with
  | mappings => exact .inl rfl
  | bank c l =>
      obtain rfl : c = 0 := by simpa [ListRef.node] using hl
      exact .inr ⟨l, rfl⟩
  | unlisted m =>
      obtain rfl : m = 0 := by simpa [ListRef.node] using hl
      exact absurd (by simp [settledServer]) h.2
  | unlinked m =>
      obtain rfl : m = 0 := by simpa [ListRef.node] using hl
      exact absurd (by simp [settledServer]) (h.2 0 .mapsActive)

theorem settled_node_mappings {a : ℕ} (h : a ∈ ListRef.head settledLayout .mappings ::
    settledServer.elems settledLayout .mappings) : a = 1000 ∨ a = 2000 := by
  simpa [ListRef.head, ListRef.node, Server.elems, settledLayout, settledServer] using h

theorem settled_node_bank {a : ℕ} {l : BankList} (h : a ∈ ListRef.head settledLayout (.bank 0 l) ::
    settledServer.elems settledLayout (.bank 0 l)) :
    a = 3000 + l.offset ∨ (a = 2032 ∧ l = .mapsActive) := by
  obtain rfl | h := List.mem_cons.mp h
  · exact .inl rfl
  · obtain ⟨m, hm, rfl⟩ := List.mem_map.mp h
    have hm : m ∈ if (0 : ConnId) = 0 ∧ l = .mapsActive then [0] else [] := hm
    split_ifs at hm with hl
    · exact .inr ⟨rfl, hl.2⟩
    · cases hm

theorem settled_rings : settledServer.RingsIn settledLayout settledMem := by
  refine ⟨?_, ?_, ?_⟩
  · intro r hr
    obtain rfl | ⟨l, rfl⟩ := settled_lists hr
    · exact ⟨⟨rfl, rfl, rfl, rfl⟩, by decide⟩
    · cases l with
      | mapsActive => exact ⟨⟨rfl, rfl, rfl, rfl⟩, by decide⟩
      | _ => exact ⟨⟨rfl, rfl⟩, by decide⟩
  · apply Server.nodes_of_lists
    · intro m hm
      exact settled_live.mpr (.inr (.inl (by rw [List.mem_singleton.mp hm])))
    · intro c l m hm
      have hm : m ∈ if c = 0 ∧ l = .mapsActive then [0] else [] := hm
      split_ifs at hm
      · exact settled_live.mpr (.inr (.inl (by rw [List.mem_singleton.mp hm])))
      · cases hm
  · intro r hr r' hr' a ha ha'
    obtain rfl | ⟨l, rfl⟩ := settled_lists hr <;> obtain rfl | ⟨l', rfl⟩ := settled_lists hr'
    · rfl
    · have := settled_node_mappings ha
      have := settled_node_bank ha'
      omega
    · have := settled_node_mappings ha'
      have := settled_node_bank ha
      omega
    · have hoff := settled_node_bank ha
      have hoff' := settled_node_bank ha'
      by_cases hl : l = l'
      · rw [hl]
      · have : l.offset ≠ l'.offset := fun e => hl (BankList.offset_inj.mp e)
        have hone : ¬ (l = .mapsActive ∧ l' = .mapsActive) := fun h => hl (h.1.trans h.2.symm)
        obtain h | ⟨h, hact⟩ := hoff <;> obtain h' | ⟨h', hact'⟩ := hoff'
        · omega
        · omega
        · omega
        · exact absurd ⟨hact, hact'⟩ hone

theorem settled_rep : settled.Rep settledLayout settledServer := by
  refine ⟨rfl, ⟨?_, ?_⟩, ⟨settled_rings, ?_, ?_, ?_, ?_⟩, ?_⟩
  · intro o ho
    obtain rfl | rfl | rfl := settled_live.mp ho <;> decide
  · intro o o' ho ho' hne
    obtain rfl | rfl | rfl := settled_live.mp ho <;> obtain rfl | rfl | rfl := settled_live.mp ho' <;>
      first | exact absurd rfl hne | decide
  · intro m x hx
    obtain ⟨rfl, rfl⟩ := settled_heap hx
    rfl
  · intro m x hx
    obtain ⟨rfl, rfl⟩ := settled_heap hx
    decide +kernel
  · intro m x hx
    obtain ⟨rfl, rfl⟩ := settled_heap hx
    decide +kernel
  · intro c k hk
    have hc : settledServer.Live (.bank c) := Option.isSome_iff_exists.mpr ⟨k, hk⟩
    obtain rfl : c = 0 := by simpa using settled_live.mp hc
    obtain rfl := Option.some.inj hk
    decide +kernel
  · intro a
    have hm : ∀ m, settledServer.Live (.mapping m) ↔ m = 0 := fun m => by simp [settled_live]
    simp only [hm, exists_eq_left]
    exact decide_eq_true_iff

theorem settled_harmful :
    ¬ Harmless settledLayout settledServer
      (settled.handleCreateMappingRes settledLayout settledPoison 0) ∧
    ¬ Harmless settledLayout settledServer
      (settled.handleRemoveMappingRes settledLayout settledPoison 0) := by
  have h := unsolicited_harmful settled_rep settledPoison (c := 0) rfl
  exact ⟨h.1 rfl, h.2 rfl⟩

/-- The bankd sends the `createMappingRes` once more, or a `removeMappingRes` that nobody asked
for. -/
theorem settled_harmed : settled.Rep settledLayout settledServer ∧
    settledServer.fi 0 = some .connectedBankd ∧
    settledServer.maps 0 .mapsUnack = [] ∧ settledServer.maps 0 .mapsDeleting = [] ∧
    ¬ Harmless settledLayout settledServer
      (settled.handleCreateMappingRes settledLayout settledPoison 0) ∧
    ¬ Harmless settledLayout settledServer
      (settled.handleRemoveMappingRes settledLayout settledPoison 0) := by
  refine ⟨settled_rep, rfl, rfl, rfl, ?_, ?_⟩
  · rintro ⟨img, hr, hsame⟩
    have hmem : (settled.handleCreateMappingRes settledLayout settledPoison 0).map
        (fun img => img.mem 3016) = .ok 3032 := by
      rfl
    have hself : img.mem 3016 = 3016 :=
      (Llist.ring_nil.mp (hsame.lists 0 (settled_live.mpr (by simp)) .mapsUnack)).1
    rw [hr] at hmem
    have hmoved : img.mem 3016 = 3032 := Except.ok.inj hmem
    omega
  · rintro ⟨img, hr, _⟩
    have herr : settled.handleRemoveMappingRes settledLayout settledPoison 0 =
        .error (.fault .assertion) := by
      rfl
    rw [herr] at hr
    cases hr

end Image

end Remsim
