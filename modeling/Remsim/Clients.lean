import Remsim.Front
import Remsim.Listing
import Remsim.Net

/-! # Clients are told their bankd

`Informed` says what a client shall know: if one of its mappings is active, the last
`ConfigClientBankReq` it got names the bank slot of that mapping and the address of the bank, and if
it has no mapping, that request had port 0.

The server updates a client on the response to a request only.  It does so neither when a mapping is
deleted that is `NEW` again after the loss of its bank, nor when a bank is lost in the middle of a
deletion, and the response to a remove request tells the client that it has no bankd even if another
mapping of the client has become active in between.  `Careful` excludes these steps, and those where
a request is lost; under it every quiet state is `Informed` (`careful_informed`). -/

namespace Remsim

/-! ### The mappings of a client -/

namespace Book

variable {b : Book} {c : ConnId} {m a : MapId} {cs : ClientSlot}

/-- The mapping is one of the client's. -/
def Of (b : Book) (cs : ClientSlot) (m : MapId) : Prop := ∃ bs, b.slotsOf m = some (bs, cs)

/-- The client has a mapping that is on the global list or whose removal is requested. -/
def Holds (b : Book) (cs : ClientSlot) : Prop :=
  ∃ m, b.Of cs m ∧ (m ∈ b.mappings ∨ ∃ c, b.Leaving c m)

theorem of_iff {x : SlotMapping} (hx : b.heap m = some x) : b.Of cs m ↔ x.client = cs := by
  unfold Of slotsOf
  rw [hx]
  constructor
  · rintro ⟨bs, h⟩
    exact (Prod.mk.inj (Option.some.inj h)).2
  · rintro rfl
    exact ⟨x.bank, rfl⟩

theorem Of.heap (h : b.Of cs m) : ∃ x, b.heap m = some x ∧ x.client = cs := by
  obtain ⟨bs, h⟩ := h
  obtain ⟨x, hx, e⟩ := Option.map_eq_some_iff.mp h
  exact ⟨x, hx, (Prod.mk.inj e).2⟩

section Mark

variable {conn : UInt16 → Option ConnId}

theorem Inv.leaving_mark (hb : b.Inv) (hconn : ∀ i k, conn i = some k ↔ b.bankOf k = some i)
    (h : b.Leaving c m) : (b.mark conn a).Leaving c m :=
  h.imp (fun h => hb.mem_mark_of_mem hconn h (by decide) (by decide))
    fun h => hb.mem_mark_of_mem hconn h (by decide) (by decide)

theorem Inv.leaving_markAll :
    ∀ (ms : List MapId) {b : Book}, b.Inv → (∀ i k, conn i = some k ↔ b.bankOf k = some i) →
      b.Leaving c m → (b.markAll conn ms).Leaving c m
  | [], _, _, _, h => h
  | a :: ms, _, hb, hconn, h =>
      Inv.leaving_markAll ms (hb.mark hconn a) (fun i k => by rw [mark_bankOf]; exact hconn i k)
        (hb.leaving_mark hconn h)

theorem mem_markAll_mappings :
    ∀ (ms : List MapId) {b : Book}, m ∈ b.mappings → m ∉ ms → m ∈ (b.markAll conn ms).mappings
  | [], _, h, _ => h
  | a :: ms, b, h, hn => by
      refine mem_markAll_mappings ms (b := b.mark conn a) ?_ fun hm =>
        hn (List.mem_cons_of_mem _ hm)
      cases hx : b.heap a with
      | none =>
          rw [mark_none hx]
          exact h
      | some x =>
          exact (mem_mark_mappings hx).mpr ⟨h, fun e => hn (e ▸ List.mem_cons_self)⟩

theorem Inv.active_markAll :
    ∀ (ms : List MapId) {b : Book}, b.Inv → (∀ i k, conn i = some k ↔ b.bankOf k = some i) →
      m ∈ b.mappings → m ∈ b.maps c .mapsActive →
      m ∈ (b.markAll conn ms).mappings ∨ (b.markAll conn ms).Leaving c m
  | [], _, _, _, h, _ => .inl h
  | a :: ms, b, hb, hconn, h, hact => by
      have hconn' : ∀ i k, conn i = some k ↔ (b.mark conn a).bankOf k = some i :=
        fun i k => by rw [mark_bankOf]; exact hconn i k
      cases hx : b.heap a with
      | none =>
          have hm : b.mark conn a = b := mark_none hx
          have := Inv.active_markAll ms hb hconn h hact
          rw [← hm] at this
          exact this
      | some x =>
          by_cases e : m = a
          · have hleave : (b.mark conn a).Leaving c m :=
              .inl ((hb.mem_mark_maps hconn hx).mpr (.inr ⟨e, rfl, e ▸ hact⟩))
            exact .inr (Inv.leaving_markAll ms (hb.mark hconn a) hconn' hleave)
          · exact Inv.active_markAll ms (hb.mark hconn a) hconn' ((mem_mark_mappings hx).mpr ⟨h, e⟩)
              ((hb.mem_mark_maps hconn hx).mpr (.inl ⟨hact, fun h => absurd h e⟩))

theorem Inv.active_mark (hb : b.Inv) (hconn : ∀ i k, conn i = some k ↔ b.bankOf k = some i)
    (h : m ∈ (b.mark conn a).maps c .mapsActive) : m ∈ b.maps c .mapsActive := by
  cases hx : b.heap a with
  | none => rwa [mark_none hx] at h
  | some x =>
      rcases (hb.mem_mark_maps hconn hx).mp h with ⟨h, _⟩ | ⟨_, hl, _⟩
      · exact h
      · cases hl

theorem Inv.mem_active_of_markAll :
    ∀ (ms : List MapId) {b : Book}, b.Inv → (∀ i k, conn i = some k ↔ b.bankOf k = some i) →
      m ∈ (b.markAll conn ms).maps c .mapsActive → m ∈ b.maps c .mapsActive
  | [], _, _, _, h => h
  | a :: ms, _, hb, hconn, h =>
      hb.active_mark hconn (Inv.mem_active_of_markAll ms (hb.mark hconn a)
        (fun i k => by rw [mark_bankOf]; exact hconn i k) h)

end Mark

theorem Inv.leaving_push (hb : b.Inv) (k : ConnId) (h : b.Leaving c m) :
    (b.push k).Leaving c m := by
  unfold Leaving
  rw [hb.push_maps, hb.push_maps]
  split_ifs with e
  · subst e
    simp only [List.not_mem_nil, false_or, List.mem_append]
    exact h.symm
  · exact h

theorem Inv.leaving_pushAll :
    ∀ (ks : List ConnId) {b : Book}, b.Inv → b.Leaving c m → (b.pushAll ks).Leaving c m
  | [], _, _, h => h
  | k :: ks, _, hb, h => Inv.leaving_pushAll ks (hb.push k) (hb.leaving_push k h)

theorem Inv.active_push (hb : b.Inv) (k : ConnId) (h : m ∈ (b.push k).maps c .mapsActive) :
    m ∈ b.maps c .mapsActive := by
  rw [hb.push_maps] at h
  split_ifs at h with e
  · rwa [e]
  · exact h

theorem Inv.mem_active_of_pushAll :
    ∀ (ks : List ConnId) {b : Book}, b.Inv → m ∈ (b.pushAll ks).maps c .mapsActive →
      m ∈ b.maps c .mapsActive
  | [], _, _, h => h
  | k :: ks, _, hb, h => hb.active_push k (Inv.mem_active_of_pushAll ks (hb.push k) h)

end Book

namespace Ledger

variable {g : Ledger} {ev : Event} {c : ConnId} {m : MapId} {cs : ClientSlot}

/-- Only a create response makes a mapping active. -/
theorem active_apply (hb : g.toBook.Inv) (hv : g.Valid ev)
    (h : m ∈ (g.apply ev).maps c .mapsActive) :
    m ∈ g.maps c .mapsActive ∨ (ev = .ack c ∧ ∃ ms, g.maps c .mapsUnack = m :: ms) := by
  cases ev with
  | quiet => exact .inl h
  | post bs cs dst =>
      refine .inl ?_
      change m ∈ (g.toBook.post bs cs dst).maps c .mapsActive at h
      cases ha : g.slotmapAdd bs cs with
      | none => rwa [Book.post_of_none ha] at h
      | some r =>
          rcases (hb.mem_post_maps ha dst).mp h with h | ⟨_, _, hl⟩
          · exact h
          · cases hl
  | marks conn ms => exact .inl (Book.Inv.mem_active_of_markAll ms hb hv.1 h)
  | eventFd cs => exact .inl (Book.Inv.mem_active_of_pushAll cs hb h)
  | push k => exact .inl (hb.active_push k h)
  | connect k id =>
      refine .inl ?_
      have hmaps := hb.connect_maps hv.1 hv.2 c .mapsActive
      change m ∈ (g.toBook.connect k id).maps c .mapsActive at h
      by_cases e : c = k
      · rw [hmaps, if_pos e, if_neg (by decide)] at h
        cases h
      · rwa [hmaps, if_neg e] at h
  | drop k =>
      refine .inl ?_
      change m ∈ (g.toBook.drop k).maps c .mapsActive at h
      rw [hb.drop_maps] at h
      split_ifs at h
      · cases h
      · exact h
  | kill k => exact .inl h
  | ack k =>
      change m ∈ (g.toBook.ack k).maps c .mapsActive at h
      unfold Book.ack at h
      cases hm : g.maps k .mapsUnack with
      | nil =>
          rw [hm] at h
          exact .inl h
      | cons a ms =>
          rw [hm] at h
          rcases Book.mem_stateChange.mp h with ⟨h, _⟩ | ⟨rfl, hd⟩
          · exact .inl h
          · obtain ⟨rfl, _⟩ := Prod.mk.inj (Option.some.inj hd)
            exact .inr ⟨rfl, ms, hm⟩
  | unmap k =>
      refine .inl ?_
      change m ∈ (g.toBook.unmap k).maps c .mapsActive at h
      rcases hb.unmap_cases k with hu | ⟨a, _, _, hkeep⟩
      · rwa [hu] at h
      · rwa [hkeep c _ (by decide)] at h

theorem slotsOf_kept (hb : g.toBook.Inv) {e e' : BankSlot × ClientSlot}
    (he : g.slotsOf m = some e) (h : (g.apply ev).slotsOf m = some e') : e' = e := by
  rcases slotsOf_apply hb h with h | ⟨dst, hev⟩
  · exact Option.some.inj (h.symm.trans he)
  · subst hev
    change (g.toBook.post e'.1 e'.2 dst).slotsOf m = some e' at h
    cases ha : g.slotmapAdd e'.1 e'.2 with
    | none =>
        rw [Book.post_of_none ha] at h
        exact Option.some.inj (h.symm.trans he)
    | some r =>
        obtain ⟨x, hx, _⟩ := Option.map_eq_some_iff.mp he
        have hne : m ≠ g.next := Nat.ne_of_lt (hb.wf.fresh m x hx)
        rw [Book.Inv.slotsOf_post hb ha, if_neg hne] at h
        exact Option.some.inj (h.symm.trans he)

/-- The event leaves the client the mappings it holds: no deletion of a mapping that is
unacknowledged, or `NEW` without another one leaving; no loss of the last one in the middle of its
deletion; no removal. -/
def Retains (g : Ledger) (cs : ClientSlot) : Event → Prop
  | .marks _ ms => ∀ m ∈ ms, ∀ x, g.heap m = some x → x.client = cs →
      x.state ≠ .unacknowledged ∧ (x.state = .new → ∃ m', g.Of cs m' ∧ ∃ c, g.Leaving c m')
  | .drop k => ∀ m, g.Leaving k m → g.Of cs m →
      ∃ m', g.Of cs m' ∧ (m' ∈ g.mappings ∨ ∃ c, c ≠ k ∧ g.Leaving c m')
  | .unmap k => ∀ m ms, g.maps k .mapsDeleting = m :: ms → ¬g.Of cs m
  | _ => True

theorem holds_of_mem (hb : g.toBook.Inv) (hv : g.Valid ev) (hof : g.Of cs m)
    (h : m ∈ (g.apply ev).mappings ∨ ∃ c, (g.apply ev).Leaving c m) : (g.apply ev).Holds cs := by
  have hb' := inv_apply hb hv
  obtain ⟨x, hx⟩ : ∃ x, (g.apply ev).heap m = some x := by
    rcases h with h | ⟨c, h | h⟩
    · exact hb'.wf.alloc m h
    · exact hb'.heap_of_mem h
    · exact hb'.heap_of_mem h
  obtain ⟨bs, he⟩ := hof
  refine ⟨m, ⟨bs, ?_⟩, h⟩
  have hs : (g.apply ev).slotsOf m = some x.slots := by
    unfold Book.slotsOf
    rw [hx]
    rfl
  rw [hs, slotsOf_kept hb he hs]

theorem holds_marks (hb : g.toBook.Inv) {conn : UInt16 → Option ConnId} {ms : List MapId}
    (hv : g.Valid (.marks conn ms)) (hof : g.Of cs m) (hm : m ∈ g.mappings)
    (hret : g.Retains cs (.marks conn ms)) : (g.apply (.marks conn ms)).Holds cs := by
  by_cases hms : m ∈ ms
  · obtain ⟨x, hx, hcs⟩ := hof.heap
    obtain ⟨hun, hnew⟩ := hret m hms x hx hcs
    have leave : ∀ {a c}, g.Of cs a → g.Leaving c a → (g.apply (.marks conn ms)).Holds cs :=
      fun ha hl => holds_of_mem hb hv ha (.inr ⟨_, Book.Inv.leaving_markAll ms hb hv.1 hl⟩)
    cases hst : x.state with
    | new =>
        obtain ⟨m', hof', c, hl⟩ := hnew hst
        exact leave hof' hl
    | unacknowledged => exact absurd hst hun
    | active =>
        obtain ⟨c, hact, _⟩ := hb.mem_of_state (l := .mapsActive) hx hst (by decide)
        refine holds_of_mem hb hv hof ?_
        exact (Book.Inv.active_markAll ms hb hv.1 hm hact).imp id fun h => ⟨c, h⟩
    | deleteReq =>
        obtain ⟨c, hl, _⟩ := hb.mem_of_state (l := .mapsDelreq) hx hst (by decide)
        exact leave hof (.inl hl)
    | deleting =>
        obtain ⟨c, hl, _⟩ := hb.mem_of_state (l := .mapsDeleting) hx hst (by decide)
        exact leave hof (.inr hl)
  · exact holds_of_mem hb hv hof (.inl (Book.mem_markAll_mappings ms hm hms))

/-- What the loss of a connection leaves of a mapping: what is on its lists is replaced by another
mapping of the client. -/
theorem holds_drop (hb : g.toBook.Inv) (hlist : g.Listing) {k : ConnId} (hv : g.Valid (.drop k))
    (hof : g.Of cs m) (hm : m ∈ g.mappings ∨ ∃ c, g.Leaving c m)
    (hret : g.Retains cs (.drop k)) : (g.apply (.drop k)).Holds cs := by
  have far : ∀ {a c}, g.Of cs a → c ≠ k → g.Leaving c a → (g.apply (.drop k)).Holds cs := by
    intro a c ha hne hl
    refine holds_of_mem hb hv ha (.inr ⟨c, ?_⟩)
    show (g.toBook.drop k).Leaving c a
    unfold Book.Leaving
    rw [hb.drop_maps, hb.drop_maps, if_neg hne, if_neg hne]
    exact hl
  have listed : ∀ {a}, g.Of cs a → a ∈ g.mappings → ¬g.Leaving k a →
      (g.apply (.drop k)).Holds cs := by
    intro a ha hma hnl
    refine holds_of_mem hb hv ha (.inl ?_)
    show a ∈ (g.toBook.unlinkAll k).mappings
    rw [(hb.unlinkAll_spec k).1, List.mem_filter]
    exact ⟨hma, decide_eq_true (show ¬g.Doomed k a from hnl)⟩
  have mend : ∀ {a}, g.Of cs a → g.Leaving k a → (g.apply (.drop k)).Holds cs := by
    intro a ha hl
    obtain ⟨m', hof', hm' | ⟨c, hne, hl'⟩⟩ := hret a hl ha
    · by_cases hk : g.Leaving k m'
      · exact absurd hm' (hlist.gone k m' hk)
      · exact listed hof' hm' hk
    · exact far hof' hne hl'
  rcases hm with hm | ⟨c, hl⟩
  · by_cases hk : g.Leaving k m
    · exact mend hof hk
    · exact listed hof hm hk
  · by_cases e : c = k
    · exact mend hof (e ▸ hl)
    · exact far hof e hl

theorem holds_unmap (hb : g.toBook.Inv) {k : ConnId} (hv : g.Valid (.unmap k)) (hof : g.Of cs m)
    (hm : m ∈ g.mappings ∨ ∃ c, g.Leaving c m) (hret : g.Retains cs (.unmap k)) :
    (g.apply (.unmap k)).Holds cs := by
  cases hl : g.maps k .mapsDeleting with
  | nil => exact absurd hl hv.2
  | cons a as =>
      have hun : g.toBook.unmap k = g.toBook.free a := by
        unfold Book.unmap
        rw [hl]
      have hne : m ≠ a := fun e => hret a as hl (e ▸ hof)
      refine holds_of_mem hb hv hof ?_
      show m ∈ (g.toBook.unmap k).mappings ∨ ∃ c, (g.toBook.unmap k).Leaving c m
      rw [hun]
      refine hm.imp (fun hm => Slotmaps.mem_slotmapDel.mpr ⟨hm, hne⟩) fun ⟨c, hl⟩ => ⟨c, ?_⟩
      exact hl.imp (fun h => Book.mem_free.mpr ⟨h, hne⟩) fun h => Book.mem_free.mpr ⟨h, hne⟩

/-- **A retaining event leaves the client a mapping.** -/
theorem holds_apply (h : g.Holds cs) (hb : g.toBook.Inv) (hlist : g.Listing) (hv : g.Valid ev)
    (hret : g.Retains cs ev) : (g.apply ev).Holds cs := by
  obtain ⟨m, hof, hm⟩ := h
  cases ev with
  | quiet => exact ⟨m, hof, hm⟩
  | post bs cs dst =>
      refine holds_of_mem hb hv hof ?_
      show m ∈ (g.toBook.post bs cs dst).mappings ∨ ∃ c, (g.toBook.post bs cs dst).Leaving c m
      cases ha : g.slotmapAdd bs cs with
      | none => rwa [Book.post_of_none ha]
      | some r =>
          refine hm.imp (fun hm => (hb.mem_post_mappings ha dst m).mpr (.inl hm)) ?_
          rintro ⟨c, hl⟩
          exact ⟨c, hl.imp (fun h => (hb.mem_post_maps ha dst).mpr (.inl h))
            fun h => (hb.mem_post_maps ha dst).mpr (.inl h)⟩
  | marks conn ms =>
      rcases hm with hm | ⟨c, hl⟩
      · exact holds_marks hb hv hof hm hret
      · exact holds_of_mem hb hv hof (.inr ⟨c, Book.Inv.leaving_markAll ms hb hv.1 hl⟩)
  | eventFd ks =>
      refine holds_of_mem hb hv hof (hm.imp (fun hm => ?_) fun ⟨c, hl⟩ => ?_)
      · show m ∈ (g.toBook.pushAll ks).mappings
        rwa [Book.pushAll_mappings]
      · exact ⟨c, Book.Inv.leaving_pushAll ks hb hl⟩
  | push k =>
      refine holds_of_mem hb hv hof (hm.imp (fun hm => ?_) fun ⟨c, hl⟩ => ?_)
      · show m ∈ (g.toBook.push k).mappings
        rwa [Book.push_mappings]
      · exact ⟨c, hb.leaving_push k hl⟩
  | connect k id =>
      refine holds_of_mem hb hv hof (hm.imp (fun hm => ?_) fun ⟨c, hl⟩ => ⟨c, ?_⟩)
      · show m ∈ (g.toBook.connect k id).mappings
        rwa [Book.connect_mappings]
      · have hne : c ≠ k := by
          rintro rfl
          rcases hl with hl | hl
          · rw [hb.maps_eq_nil hv.1] at hl
            cases hl
          · rw [hb.maps_eq_nil hv.1] at hl
            cases hl
        show (g.toBook.connect k id).Leaving c m
        unfold Book.Leaving
        rw [hb.connect_maps hv.1 hv.2, hb.connect_maps hv.1 hv.2, if_neg hne, if_neg hne]
        exact hl
  | drop k => exact holds_drop hb hlist hv hof hm hret
  | kill k => exact ⟨m, hof, hm⟩
  | ack k =>
      refine holds_of_mem hb hv hof (hm.imp (fun hm => ?_) fun ⟨c, hl⟩ => ⟨c, ?_⟩)
      · show m ∈ (g.toBook.ack k).mappings
        rwa [Book.ack_mappings]
      · show (g.toBook.ack k).Leaving c m
        unfold Book.Leaving
        rw [hb.ack_maps k (by decide) (by decide), hb.ack_maps k (by decide) (by decide)]
        exact hl
  | unmap k => exact holds_unmap hb hv hof hm hret

end Ledger

namespace Server

variable (s : Server)

/-! ### Conditions on steps -/

/-- The mapping is one of the client's. -/
def IsOf (cs : ClientSlot) (m : MapId) : Prop := ∃ x ∈ s.heap m, x.client = cs

/-- The mappings of a connection whose removal is requested. -/
def leaving (c : ConnId) : List MapId := s.maps c .mapsDelreq ++ s.maps c .mapsDeleting

/-- A client of the slot is connected. -/
def Joined (cs : ClientSlot) : Prop :=
  ∃ k ∈ s.clients, ∃ q ∈ s.conns k, q.fi = some .connectedClient ∧ q.clientSlot = cs

/-- A client of the slot is connected and has a bankd configured. -/
def Directed (cs : ClientSlot) : Prop :=
  ∃ k ∈ s.clients, ∃ q ∈ s.conns k, q.fi = some .connectedClient ∧ q.clientSlot = cs ∧
    q.bankd.port ≠ 0

/-- The deletion of the mapping will be made known to its client: the mapping is not
unacknowledged, and if it is `NEW` and its client has a bankd configured, the removal of another
mapping of that client is requested. -/
def Revocable (m : MapId) : Prop :=
  ∀ x ∈ s.heap m, x.state ≠ .unacknowledged ∧ (x.state = .new → s.Directed x.client →
    ∃ c ∈ s.banks, ∃ m' ∈ s.leaving c, s.IsOf x.client m')

/-- The step is none of those on which clients are not told the truth: deletions are `Revocable`;
the eventfd callback does not find both new mappings and deletions; a bank that is lost holds no
last mapping of a client in the middle of its deletion; no bank has a keep-alive timeout; the address
of a new bank can be read; and no mapping is removed whose client has an active one. -/
def Careful : Op → Prop
  | .del mapId => ∀ m ∈ s.mapById mapId, s.Revocable m
  | .globalReset => ∀ m ∈ s.mappings, s.Revocable m
  | .eventFd => ∀ c ∈ s.banks, s.maps c .mapsNew = [] ∨ s.maps c .mapsDelreq = []
  | .closed c => ∀ m ∈ s.leaving c, ∀ x ∈ s.heap m, s.Directed x.client →
      (∃ m' ∈ s.mappings, s.IsOf x.client m') ∨
        ∃ c' ∈ s.banks, c' ≠ c ∧ ∃ m' ∈ s.leaving c', s.IsOf x.client m'
  | .kaTimeout c => c ∉ s.banks
  | .rx c (.connectBankReq _ _ _) => s.accepts c .bankConn = true → (s.addr c).isSome = true
  | .rx c (.removeMappingRes _) => ∀ m ∈ (s.maps c .mapsDeleting).head?, ∀ x ∈ s.heap m,
      s.Joined x.client → ∀ c' ∈ s.banks, ∀ m' ∈ s.maps c' .mapsActive, ¬s.IsOf x.client m'
  | _ => True

/-- What the clients shall know. -/
def Informed : Prop :=
  ∀ k q, s.conns k = some q → q.fi = some .connectedClient →
    (∀ m x, s.heap m = some x → x.state = .active → x.client = q.clientSlot →
      ∃ c ip, s.bankdConnById x.bank.bankId = some c ∧ s.addr c = some ip ∧
        s.told k = some (.configClientBankReq (bankSlot2rspro x.bank) ip 9999)) ∧
    ((∀ m ∈ s.mappings, ¬s.IsOf q.clientSlot m) →
      s.told k = none ∨ ∃ slot ip, s.told k = some (.configClientBankReq slot ip 0))

variable {s} {s' : Server} {op : Op} {c k : ConnId} {cs : ClientSlot} {v : ConnView}

instance {m : MapId} : Decidable (s.IsOf cs m) := by
  unfold IsOf
  infer_instance

instance : Decidable (s.Joined cs) := by
  unfold Joined
  infer_instance

instance : Decidable (s.Directed cs) := by
  unfold Directed
  infer_instance

instance {m : MapId} : Decidable (s.Revocable m) := by
  unfold Revocable
  infer_instance

instance : Decidable (s.Careful op) :=
  match op with
  | .del mapId => inferInstanceAs (Decidable (∀ m ∈ s.mapById mapId, s.Revocable m))
  | .globalReset => inferInstanceAs (Decidable (∀ m ∈ s.mappings, s.Revocable m))
  | .eventFd => inferInstanceAs (Decidable (∀ c ∈ s.banks, _ ∨ _))
  | .closed c => inferInstanceAs (Decidable (∀ m ∈ s.leaving c, ∀ x ∈ s.heap m, _ → _ ∨ _))
  | .kaTimeout c => inferInstanceAs (Decidable (c ∉ s.banks))
  | .rx c (.connectBankReq _ _ _) =>
      inferInstanceAs (Decidable (s.accepts c .bankConn = true → (s.addr c).isSome = true))
  | .rx c (.removeMappingRes _) =>
      inferInstanceAs (Decidable (∀ m ∈ (s.maps c .mapsDeleting).head?, ∀ x ∈ s.heap m, _ → _))
  | .rx _ (.connectBankRes _ _) | .rx _ (.connectClientReq _ _) | .rx _ (.connectClientRes _ _)
  | .rx _ (.createMappingReq _ _) | .rx _ (.createMappingRes _) | .rx _ (.removeMappingReq _ _)
  | .rx _ (.configClientIdRes _) | .rx _ (.configClientBankReq _ _ _)
  | .rx _ (.configClientBankRes _) | .rx _ .resetStateReq | .rx _ (.resetStateRes _)
  | .rx _ (.setAtrReq _ _) | .rx _ (.setAtrRes _) | .rx _ (.tpduModemToCard _ _ _)
  | .rx _ (.tpduCardToModem _ _ _) | .rx _ (.clientSlotStatusInd _)
  | .rx _ (.bankSlotStatusInd _) | .rx _ .unhandled
  | .post _ _ | .accept _ | .push _ | .timeout _ => inferInstanceAs (Decidable True)

/-! ### The conditions in terms of the ledger -/

theorem isOf_iff {m : MapId} : s.IsOf cs m ↔ s.book.Of cs m := by
  constructor
  · rintro ⟨x, hx, rfl⟩
    exact (Book.of_iff hx).mpr rfl
  · intro h
    obtain ⟨x, hx, e⟩ := h.heap
    exact ⟨x, hx, e⟩

theorem mem_leaving {m : MapId} : m ∈ s.leaving c ↔ s.book.Leaving c m := List.mem_append

theorem leaving_bank (hg : s.Good) {m : MapId} (h : s.book.Leaving c m) : c ∈ s.banks := by
  rcases h with h | h
  · obtain ⟨_, _, _, hb⟩ := hg.book.linked c _ m h
    exact (bankOf_eq_some.mp hb).1
  · obtain ⟨_, _, _, hb⟩ := hg.book.linked c _ m h
    exact (bankOf_eq_some.mp hb).1

theorem joined_of_view (hg : s.Good) (h : s.view k = some v) (hv : v.standing = .client cs) :
    s.Joined cs ∧ (v.bankd.port ≠ 0 → s.Directed cs) := by
  obtain ⟨q, hq, hst, hb, _⟩ := conn_of_view h
  rw [hv] at hst
  obtain ⟨hf, hcs⟩ := Conn.standing_client hst
  have hm : k ∈ s.clients := hg.mem_of_fi (fi_eq_some.mpr ⟨q, hq, hf⟩) rfl
  exact ⟨⟨k, hm, q, hq, hf, hcs⟩, fun hp => ⟨k, hm, q, hq, hf, hcs, hb ▸ hp⟩⟩

theorem Revocable.retains {m : MapId} {x : SlotMapping} (h : s.Revocable m)
    (hx : s.heap m = some x) (hd : s.Directed x.client) : x.state ≠ .unacknowledged ∧
      (x.state = .new → ∃ m', s.book.Of x.client m' ∧ ∃ c, s.book.Leaving c m') := by
  obtain ⟨hun, hnew⟩ := h x hx
  refine ⟨hun, fun hst => ?_⟩
  obtain ⟨c, _, m', hm', hof⟩ := hnew hst hd
  exact ⟨m', isOf_iff.mp hof, c, mem_leaving.mp hm'⟩

/-- A careful step leaves a client with a bankd its mappings, unless it is a removal. -/
theorem Careful.retains (h : s.Careful op) (hd : s.Directed cs)
    (hun : ∀ c, s.event op ≠ .unmap c) : s.ledger.Retains cs (s.event op) := by
  cases op with
  | del mapId =>
      rintro m hm x hx rfl
      exact (h m (Option.mem_toList.mp hm)).retains hx hd
  | globalReset =>
      rintro m hm x hx rfl
      exact (h m hm).retains hx hd
  | closed c =>
      simp only [event]
      split_ifs with hc
      · intro m hl hof
        obtain ⟨x, hx, rfl⟩ := hof.heap
        rcases h m (mem_leaving.mpr hl) x hx hd with ⟨m', hm', ho⟩ | ⟨c', _, hne, m', hm', ho⟩
        · exact ⟨m', isOf_iff.mp ho, .inl hm'⟩
        · exact ⟨m', isOf_iff.mp ho, .inr ⟨c', hne, mem_leaving.mp hm'⟩⟩
      · trivial
  | rx c pdu =>
      simp only [event] at hun ⊢
      rcases s.rxEvent_cases c pdu with e | ⟨_, _, _, e⟩ | ⟨_, _, e⟩ | ⟨_, _, e⟩
      · rw [e]; trivial
      · rw [e]; trivial
      · rw [e]; trivial
      · exact absurd e (hun c)
  | push c => simp only [event]; split_ifs <;> trivial
  | kaTimeout c => simp only [event]; split_ifs <;> trivial
  | _ => trivial

theorem Careful.orderly (h : s.Careful op) (hg : s.Good) (hc : c ∈ s.banks) :
    s.ledger.Orderly c (s.event op) := by
  have hrev : ∀ m, s.Revocable m → m ∉ s.ledger.maps c .mapsUnack := by
    intro m hr hm
    obtain ⟨x, hx, hst, _⟩ := hg.book.linked c _ m hm
    exact (hr x hx).1 hst
  cases op with
  | del mapId => exact fun m hm => hrev m (h m (Option.mem_toList.mp hm))
  | globalReset => exact fun m hm => hrev m (h m hm)
  | eventFd => exact h c hc
  | rx k pdu =>
      simp only [event]
      rcases s.rxEvent_cases k pdu with e | ⟨_, _, _, e⟩ | ⟨_, _, e⟩ | ⟨_, _, e⟩ <;>
        (rw [e]; trivial)
  | push k => simp only [event]; split_ifs <;> trivial
  | closed k => simp only [event]; split_ifs <;> trivial
  | kaTimeout k => simp only [event]; split_ifs <;> trivial
  | _ => trivial

/-! ### The invariant -/

/-- Every active mapping of the client is the one that the configuration names. -/
def Serves (s : Server) (cs : ClientSlot) (t : ClientBankd) : Prop :=
  ∀ c m bs, m ∈ s.maps c .mapsActive → s.book.slotsOf m = some (bs, cs) →
    ∃ ip, s.addr c = some ip ∧ t = ⟨bs, ip, 9999⟩

/-- The stored configuration was sent, and it is right for the client. -/
structure Honest (s : Server) (v : ConnView) : Prop where
  told : v.told = some v.bankd.request ∨ v.told = none ∧ v.bankd.port = 0
  waiting : v.standing = .waiting → v.bankd.port = 0
  serves : ∀ cs, v.standing = .client cs → s.Serves cs v.bankd
  holds : ∀ cs, v.standing = .client cs → v.bankd.port ≠ 0 → s.book.Holds cs

/-- All banks are connected, and the lists are in order. -/
structure Base (s : Server) : Prop where
  alive : ∀ c ∈ s.banks, ∃ v, s.view c = some v ∧ v.standing = .bank ∧ v.addr.isSome = true
  listing : s.book.Listing
  tidy : ∀ c ∈ s.banks, s.ledger.Tidy c

/-- All views are honest, and nothing was sent on connections that do not exist yet. -/
structure Truth (s : Server) : Prop extends Base s where
  fresh : ∀ c, s.nextConn ≤ c → s.told c = none
  views : ∀ c v, s.view c = some v → s.Honest v

theorem Base.addr (h : s.Base) (hc : c ∈ s.banks) : ∃ ip, s.addr c = some ip := by
  obtain ⟨v, hv, _, ha⟩ := h.alive c hc
  obtain ⟨_, _, _, _, _, e⟩ := conn_of_view hv
  rw [e] at ha
  exact Option.isSome_iff_exists.mp ha

/-- Active mappings are on the global list, so that a client has at most one of them. -/
theorem Base.active_mem (h : s.Base) (hg : s.Good) {m : MapId} {l : BankList}
    (hm : m ∈ s.maps c l) (hl : l = .mapsActive ∨ l = .mapsUnack) : m ∈ s.mappings := by
  obtain ⟨_, _, _, hb⟩ := hg.book.linked c l m hm
  refine (h.tidy c (bankOf_eq_some.mp hb).1).kept m ?_
  rcases hl with rfl | rfl
  · exact .inr hm
  · exact .inl hm

theorem Good.client_unique (hg : s.Good) {m m' : MapId} (hm : m ∈ s.mappings)
    (hm' : m' ∈ s.mappings) (h : s.book.Of cs m) (h' : s.book.Of cs m') : m = m' := by
  obtain ⟨x, hx, e⟩ := h.heap
  obtain ⟨x', hx', e'⟩ := h'.heap
  exact hg.book.wf.client m hm m' hm' x x' hx hx' (e.trans e'.symm)

/-! ### Steps that leave a view alone -/

section Step

variable {ev : Event}

/-- Banks that stay keep their view. -/
def Anchored (s s' : Server) : Prop :=
  ∀ c ∈ s'.banks, c ∈ s.banks → ∀ v, s.view c = some v → v.standing = .bank → s'.view c = some v

theorem Anchored.addr (h : Anchored s s') (ht : s.Base) (hc : c ∈ s.banks) (hc' : c ∈ s'.banks) :
    s'.addr c = s.addr c := by
  obtain ⟨v, hv, hst, _⟩ := ht.alive c hc
  obtain ⟨_, _, _, _, _, e⟩ := conn_of_view hv
  obtain ⟨_, _, _, _, _, e'⟩ := conn_of_view (h c hc' hc v hv hst)
  exact e'.symm.trans e

theorem Performs.active (hp : Performs s ev s') (hg : s.Good) {m : MapId} {bs : BankSlot}
    (hm : m ∈ s'.maps c .mapsActive) (he : s'.book.slotsOf m = some (bs, cs)) :
    s.book.slotsOf m = some (bs, cs) ∧ (m ∈ s.maps c .mapsActive ∨
      (ev = .ack c ∧ ∃ ms, s.maps c .mapsUnack = m :: ms)) := by
  have hbook : s'.book = (s.ledger.apply ev).toBook := congrArg Ledger.toBook hp.ledger
  have hm' : m ∈ (s.ledger.apply ev).maps c .mapsActive := by
    rw [← hp.ledger]
    exact hm
  rw [hbook] at he
  have hact := Ledger.active_apply hg.book hp.valid hm'
  refine ⟨?_, hact⟩
  obtain ⟨x, hx⟩ : ∃ x, s.book.heap m = some x := by
    rcases hact with h | ⟨_, ms, h⟩
    · exact hg.book.heap_of_mem h
    · exact hg.book.heap_of_mem (c := c) (l := .mapsUnack) (by
        show m ∈ s.maps c .mapsUnack
        rw [show s.maps c .mapsUnack = m :: ms from h]
        exact List.mem_cons_self)
  have hold : s.book.slotsOf m = some x.slots := by
    unfold Book.slotsOf
    rw [hx]
    rfl
  rw [hold, Ledger.slotsOf_kept hg.book hold he]

theorem Serves.step {t : ClientBankd} (h : s.Serves cs t) (ht : s.Base) (hg : s.Good)
    (hp : Performs s ev s') (ha : Anchored s s')
    (hack : ∀ c m ms, ev = .ack c → s.maps c .mapsUnack = m :: ms → ¬s.book.Of cs m) :
    s'.Serves cs t := by
  intro c m bs hm he
  obtain ⟨hold, hact⟩ := hp.active hg hm he
  obtain ⟨_, _, _, hb'⟩ := (hp.good hg).book.linked c _ m hm
  have hc' : c ∈ s'.banks := (bankOf_eq_some.mp hb').1
  rcases hact with hact | ⟨hev, ms, hun⟩
  · obtain ⟨_, _, _, hb⟩ := hg.book.linked c _ m hact
    obtain ⟨ip, hip, e⟩ := h c m bs hact hold
    exact ⟨ip, (ha.addr ht (bankOf_eq_some.mp hb).1 hc').trans hip, e⟩
  · exact absurd ⟨bs, hold⟩ (hack c m ms hev hun)

theorem Honest.step (h : s.Honest v) (ht : s.Base) (hg : s.Good) (hp : Performs s ev s')
    (ha : Anchored s s')
    (hack : ∀ cs, v.standing = .client cs → ∀ c m ms, ev = .ack c →
      s.maps c .mapsUnack = m :: ms → ¬s.book.Of cs m)
    (hret : ∀ cs, v.standing = .client cs → v.bankd.port ≠ 0 → s.ledger.Retains cs ev) :
    s'.Honest v := by
  refine ⟨h.told, h.waiting, fun cs hv => ?_, fun cs hv hport => ?_⟩
  · exact (h.serves cs hv).step ht hg hp ha (hack cs hv)
  · have hbook : s'.book = (s.ledger.apply ev).toBook := congrArg Ledger.toBook hp.ledger
    rw [hbook]
    exact Ledger.holds_apply (h.holds cs hv hport) hg.book ht.listing hp.valid (hret cs hv hport)

end Step

theorem told_tell {t : ClientBankd}
    (h : v.told = some v.bankd.request ∨ v.told = none ∧ v.bankd.port = 0) :
    (v.tell t).told = some (v.tell t).bankd.request ∨
      (v.tell t).told = none ∧ (v.tell t).bankd.port = 0 := by
  unfold ConnView.tell
  split_ifs
  · exact h
  · exact .inl rfl

/-! ### The steps -/

theorem Still.anchored (h : Still s s') : Anchored s s' := by
  intro c hc' _ v hv _
  rcases h.view c with e | ⟨_, hn⟩
  · rw [e, hv]
  · exact absurd hc' hn

theorem Settles.anchored {st : Standing} (h : Settles s s' k st) : Anchored s s' := by
  intro c _ _ v hv hst
  obtain ⟨w, hw, hwait, _⟩ := h.self
  have hne : c ≠ k := by
    rintro rfl
    obtain rfl := Option.some.inj (hv.symm.trans hw)
    rw [hst] at hwait
    cases hwait
  rw [h.other c hne, hv]

theorem Informs.anchored {t : ClientBankd} (h : Informs s s' cs t) : Anchored s s' := by
  intro c _ _ v hv hst
  rw [h.view c, hv, Option.map_some, ConnView.inform_of_ne (by rw [hst]; nofun)]

theorem accept_view (s : Server) (a : Option UInt32) (k : ConnId) :
    (s.acceptCb a).view k = if k = s.nextConn then
      some ⟨.waiting, a, ⟨⟨0, 0⟩, 0, 0⟩, s.told k⟩ else s.view k := by
  split_ifs with e
  · have hk : (s.acceptCb a).conns k = some (freshConn a) := by
      rw [e]
      exact Function.update_self _ _ _
    rw [view_eq hk]
    rfl
  · exact view_congr (Function.update_of_ne e _ _) rfl

theorem conn_lt (hg : s.Good) (h : s.view k = some v) : k < s.nextConn := by
  obtain ⟨q, hq, _⟩ := conn_of_view h
  exact hg.roster.fresh k q hq

theorem accept_anchored (hg : s.Good) (a : Option UInt32) : Anchored s (s.acceptCb a) := by
  intro c _ _ v hv _
  rw [accept_view, if_neg (Nat.ne_of_lt (conn_lt hg hv)), hv]

/-- Banks that stay are alive, and orderly steps keep the lists in order. -/
theorem Base.step {ev : Event} (ht : s.Base) (hg : s.Good) (hp : Performs s ev s')
    (hord : ∀ c ∈ s.banks, s.ledger.Orderly c ev) (ha : Anchored s s')
    (hnew : ∀ c ∈ s'.banks, c ∉ s.banks →
      ∃ v, s'.view c = some v ∧ v.standing = .bank ∧ v.addr.isSome = true) : s'.Base := by
  refine ⟨fun c hc' => ?_, hp.listing hg ht.listing,
    fun c hc' => hp.tidy hg ht.listing (ht.tidy c) (hord c) hc'⟩
  by_cases hc : c ∈ s.banks
  · obtain ⟨v, hv, hst, hip⟩ := ht.alive c hc
    exact ⟨v, ha c hc' hc v hv hst, hst, hip⟩
  · exact hnew c hc' hc

theorem Truth.fresh_step {ev : Event} (ht : s.Truth) (hg : s.Good) (hp : Performs s ev s')
    (h : ∀ c, s'.told c = s.told c ∨ (s.conns c).isSome = true) :
    ∀ c, s'.nextConn ≤ c → s'.told c = none := by
  intro c hc
  have hle : s.nextConn ≤ c := Nat.le_trans hp.ids.nextConn hc
  rcases h c with e | hsome
  · rw [e, ht.fresh c hle]
  · obtain ⟨q, hq⟩ := Option.isSome_iff_exists.mp hsome
    exact absurd (hg.roster.fresh c q hq) (Nat.not_lt.mpr hle)

/-- The step lemma for the steps that leave all client views alone. -/
theorem Honest.still (h : s.Honest v) (ht : s.Base) (hg : s.Good) (hv : s.view k = some v)
    (hp : Performs s (s.event op) s') (ha : Anchored s s') (hc : s.Careful op)
    (hev : ∀ c, s.event op ≠ .ack c ∧ s.event op ≠ .unmap c) : s'.Honest v := by
  refine h.step ht hg hp ha (fun cs _ c m ms e => absurd e (hev c).1) fun cs hst hport => ?_
  exact hc.retains ((joined_of_view hg hv hst).2 hport) fun c => (hev c).2

theorem Truth.still (ht : s.Truth) (hg : s.Good) (hp : Performs s (s.event op) s')
    (hc : s.Careful op) (h : Still s s')
    (hev : ∀ c, s.event op ≠ .ack c ∧ s.event op ≠ .unmap c) : s'.Truth := by
  refine ⟨ht.toBase.step hg hp (fun c => hc.orderly hg) h.anchored
    fun c hc' hc => absurd (h.banks c hc') hc, ht.fresh_step hg hp fun c => .inl (by rw [h.told]),
    fun k v hv => ?_⟩
  rcases h.view k with e | ⟨e, _⟩
  · rw [e] at hv
    exact (ht.views k v hv).still ht.toBase hg hv hp h.anchored hc hev
  · rw [e] at hv
    cases hv

theorem Truth.accept (ht : s.Truth) (hg : s.Good) {a : Option UInt32}
    (hp : Performs s (s.event (.accept a)) (s.acceptCb a)) : (s.acceptCb a).Truth := by
  have ha := accept_anchored hg a
  refine ⟨ht.toBase.step hg hp (fun _ _ => trivial) ha fun c hc' hc => absurd hc' hc,
    ht.fresh_step hg hp fun c => .inl rfl, fun k v hv => ?_⟩
  rw [accept_view] at hv
  split_ifs at hv with e
  · obtain rfl := Option.some.inj hv
    refine ⟨.inr ⟨ht.fresh k (Nat.le_of_eq e.symm), rfl⟩, fun _ => rfl, fun cs h => ?_,
      fun cs h => ?_⟩
    · cases h
    · cases h
  · exact (ht.views k v hv).still ht.toBase hg hv hp ha trivial fun c => ⟨nofun, nofun⟩

theorem Truth.bank (ht : s.Truth) (hg : s.Good) (hp : Performs s (s.event op) s')
    (hc : s.Careful op) (hev : ∀ c, s.event op ≠ .ack c ∧ s.event op ≠ .unmap c)
    (hb : s'.banks = s.banks ++ [c]) (ha : (s.addr c).isSome = true) (h : Settles s s' c .bank) :
    s'.Truth := by
  obtain ⟨v₀, hv₀, hwait, hv'⟩ := h.self
  refine ⟨ht.toBase.step hg hp (fun c => hc.orderly hg) h.anchored fun a ha' hna => ?_,
    ht.fresh_step hg hp fun c => .inl (by rw [h.told]), fun k v hv => ?_⟩
  · obtain rfl : a = c := by
      rw [hb, List.mem_append, List.mem_singleton] at ha'
      exact ha'.resolve_left hna
    obtain ⟨_, _, _, _, _, e⟩ := conn_of_view hv₀
    exact ⟨_, hv', rfl, by rw [show (ConnView.addr _) = v₀.addr from rfl, e]; exact ha⟩
  · by_cases e : k = c
    · rw [e, hv'] at hv
      obtain rfl := Option.some.inj hv
      refine ⟨(ht.views c v₀ hv₀).told, fun h => ?_, fun cs h => ?_, fun cs h => ?_⟩
      · cases h
      · cases h
      · cases h
    · rw [h.other k e] at hv
      exact (ht.views k v hv).still ht.toBase hg hv hp h.anchored hc hev

theorem Base.config (ht : s.Base) (hg : s.Good) {m : MapId} {x : SlotMapping}
    (hm : m ∈ s.mappings) (hx : s.heap m = some x) :
    ∃ ip port, s.bankdAddr x (s.bankdConnById x.bank.bankId) = .ok (some (ip, port)) ∧
      ∀ c, m ∈ s.maps c .mapsActive → s.addr c = some ip ∧ port = 9999 := by
  have hdel : x.state ≠ .deleting := by
    intro hst
    obtain ⟨c, hl, _⟩ := hg.book.mem_of_state (l := .mapsDeleting) hx hst (by decide)
    exact ht.listing.gone c m (.inr hl) hm
  have hconn : ∀ c, m ∈ s.maps c .mapsActive → s.bankdConnById x.bank.bankId = some c := by
    intro c hact
    obtain ⟨y, hy, _, hb⟩ := hg.book.linked c _ m hact
    obtain rfl := Option.some.inj (hy.symm.trans hx)
    exact (hg.bankdConnById_iff _ c).mpr hb
  cases hb : s.bankdConnById x.bank.bankId with
  | none =>
      refine ⟨0, 0, bankdAddr_none x, fun c hact => ?_⟩
      rw [hconn c hact] at hb
      cases hb
  | some b =>
      have hbm : b ∈ s.banks := List.mem_of_find?_eq_some hb
      obtain ⟨ip, hip⟩ := ht.addr hbm
      refine ⟨ip, 9999, bankdAddr_some hdel hip, fun c hact => ?_⟩
      rw [hconn c hact] at hb
      exact ⟨Option.some.inj hb ▸ hip, rfl⟩

theorem Base.honest_joined (ht : s.Base) (hg : s.Good) (hnone : s.slotmapByClient cs = none)
    (htold : v.told = some v.bankd.request ∨ v.told = none ∧ v.bankd.port = 0)
    (hport : v.bankd.port = 0) (hv : v.standing = .client cs) : s.Honest v := by
  refine ⟨htold, fun _ => hport, fun cs' e c m bs hm he => ?_, fun cs' e hp => absurd hport hp⟩
  obtain rfl := Standing.client.inj (hv.symm.trans e)
  have hmem := ht.active_mem hg hm (.inl rfl)
  obtain ⟨x, hx, hcs⟩ := Book.Of.heap ⟨bs, he⟩
  exact absurd hcs ((Slotmaps.slotmapByClient_none _).mp hnone m hmem x hx)

theorem Base.honest_tell (ht : s.Base) (hg : s.Good) {m : MapId} {x : SlotMapping} {ip : UInt32}
    {port : UInt16} (hm : m ∈ s.mappings) (hx : s.heap m = some x)
    (hact : ∀ c, m ∈ s.maps c .mapsActive → s.addr c = some ip ∧ port = 9999)
    (htold : v.told = some v.bankd.request ∨ v.told = none ∧ v.bankd.port = 0)
    (hv : v.standing = .client x.client) : s.Honest (v.tell ⟨x.bank, ip, port⟩) := by
  refine ⟨told_tell htold, fun e => ?_, fun cs e c m' bs hm' he => ?_, fun cs e _ => ?_⟩
  · rw [ConnView.tell_standing, hv] at e
    cases e
  · rw [ConnView.tell_standing, hv] at e
    obtain rfl := Standing.client.inj e
    have hof : s.book.Of x.client m := (Book.of_iff hx).mpr rfl
    obtain rfl := hg.client_unique (ht.active_mem hg hm' (.inl rfl)) hm ⟨bs, he⟩ hof
    obtain ⟨hip, rfl⟩ := hact c hm'
    have hbs : bs = x.bank := by
      unfold Book.slotsOf at he
      rw [show s.book.heap m' = some x from hx] at he
      exact (Prod.mk.inj (Option.some.inj he)).1.symm
    exact ⟨ip, hip, by rw [ConnView.tell_bankd, hbs]⟩
  · rw [ConnView.tell_standing, hv] at e
    obtain rfl := Standing.client.inj e
    exact ⟨m, (Book.of_iff hx).mpr rfl, .inl hm⟩

theorem Truth.client (ht : s.Truth) (hg : s.Good) (hev : s.event op = .quiet)
    (hp : Performs s (s.event op) s') (hc : s.Careful op)
    (hpt : Performs s .quiet (s.joined c cs)) (h : Settles s (s.joined c cs) c (.client cs))
    (hr : (s.joined c cs).clntStConnectedClientOnenter c = .ok s') : s'.Truth := by
  obtain ⟨v₀, hv₀, hwait, hv'⟩ := h.self
  have hgt := hpt.good hg
  have hcalm := onenter_calm hr
  have hbook : s'.book = (s.joined c cs).book := congrArg Ledger.toBook hcalm.ledger
  have hbanks : s'.banks = (s.joined c cs).banks := congrFun hcalm.roster.members .bank
  have hnew : ∀ a ∈ (s.joined c cs).banks, a ∈ s.banks := fun a ha => List.mem_of_mem_filter ha
  have htb : (s.joined c cs).Base := ht.toBase.step hg hpt (fun _ _ => trivial) h.anchored
    fun a ha' hna => absurd (hnew a ha') hna
  obtain ⟨q, hq, hst, _⟩ := conn_of_view hv'
  obtain ⟨_, hqcs⟩ := Conn.standing_client hst
  have hother : ∀ k v, k ≠ c → (s.joined c cs).view k = some v → v.standing ≠ .client cs := by
    intro k v hne hv e
    have h₁ := clientConnBySlot_of_view hgt.roster hv e
    have h₂ := clientConnBySlot_of_view hgt.roster hv' rfl
    exact hne (Option.some.inj (h₁.symm.trans h₂))
  have hnoev : ∀ a, s.event op ≠ .ack a ∧ s.event op ≠ .unmap a := by
    intro a
    rw [hev]
    exact ⟨nofun, nofun⟩
  rcases onenter_informs hgt.roster hq hr with ⟨rfl, hnone⟩ | ⟨m, x, hm, hx, hinf⟩
  · refine ⟨htb, ht.fresh_step hg hp fun a => .inl (by rw [h.told]), fun k v hv => ?_⟩
    by_cases e : k = c
    · rw [e, hv'] at hv
      obtain rfl := Option.some.inj hv
      rw [hqcs] at hnone
      exact htb.honest_joined hgt hnone (ht.views c v₀ hv₀).told
        ((ht.views c v₀ hv₀).waiting hwait) rfl
    · rw [h.other k e] at hv
      exact (ht.views k v hv).still ht.toBase hg hv hp h.anchored hc hnoev
  · obtain ⟨hmem, y, hy, hycs⟩ := Slotmaps.slotmapByClient_some _ hm
    obtain rfl := Option.some.inj (hx.symm.trans hy)
    have hxcs : x.client = cs := hycs.trans hqcs
    obtain ⟨ip, port, haddr, hact⟩ := htb.config hgt hmem hx
    have hi := hinf ip port haddr
    have hanch : Anchored s s' := by
      intro a ha' ha v hv hst
      rw [hbanks] at ha'
      exact hi.anchored a (hbanks ▸ ha') ha' v (h.anchored a ha' ha v hv hst) hst
    have hbase : s'.Base := ht.toBase.step hg hp (fun a => hc.orderly hg) hanch
      fun a ha' hna => absurd (hnew a (hbanks ▸ ha')) hna
    refine ⟨hbase, ht.fresh_step hg hp fun a => ?_, fun k v hv => ?_⟩
    · rcases hi.told a with e | e
      · exact .inl (by rw [e, h.told])
      · obtain ⟨qa, hqa⟩ := Option.isSome_iff_exists.mp e
        have hlt : a < s.nextConn := hgt.roster.fresh a qa hqa
        exact .inr ((hpt.ids.conns a e).resolve_right (Nat.not_le.mpr hlt))
    · rw [hi.view k] at hv
      obtain ⟨w, hw, rfl⟩ := Option.map_eq_some_iff.mp hv
      by_cases e : k = c
      · rw [e, hv'] at hw
        obtain rfl := Option.some.inj hw
        rw [ConnView.inform_of_eq (by rw [hxcs])]
        have hmaps : s'.maps = (s.joined c cs).maps := hcalm.maps
        have hslot : s'.toSlotmaps = (s.joined c cs).toSlotmaps := hcalm.slotmaps
        refine hbase.honest_tell (hp.good hg) (m := m) (by rw [hslot]; exact hmem)
          (by rw [hslot]; exact hx) (fun a ha => ?_) (ht.views c v₀ hv₀).told (by rw [hxcs])
        rw [hmaps] at ha
        obtain ⟨_, _, _, hb⟩ := hgt.book.linked a _ m ha
        have hab : a ∈ (s.joined c cs).banks := (bankOf_eq_some.mp hb).1
        rw [hi.anchored.addr htb hab (hbanks ▸ hab)]
        exact hact a ha
      · rw [ConnView.inform_of_ne (by rw [hxcs]; exact hother k w e hw)]
        rw [h.other k e] at hw
        exact (ht.views k w hw).still ht.toBase hg hw hp hanch hc hnoev

theorem Informs.fresh {t : ClientBankd} {ev : Event} (h : Informs s s' cs t) (ht : s.Truth)
    (hg : s.Good) (hp : Performs s ev s') : ∀ c, s'.nextConn ≤ c → s'.told c = none :=
  ht.fresh_step hg hp h.told

theorem Performs.banks_eq {ev : Event} (hp : Performs s ev s') (hg : s.Good)
    (h : ev.banks s.book.bankOf = s.book.bankOf) : ∀ c, c ∈ s'.banks ↔ c ∈ s.banks := by
  intro c
  rw [(hp.good hg).mem_banks, hg.mem_banks, hp.bankOf, h]

theorem Truth.ack (ht : s.Truth) (hg : s.Good) (hev : s.event op = .ack c)
    (hp : Performs s (s.event op) s') (hc : s.Careful op) (hr : s.createMapRes c = .ok s') :
    s'.Truth := by
  obtain ⟨m, ms, x, hm, hx, hinf⟩ := createMapRes_informs hg hr
  have hin : m ∈ s.maps c .mapsUnack := by
    rw [hm]
    exact List.mem_cons_self
  obtain ⟨_, _, _, hbank⟩ := hg.book.linked c _ m hin
  have hcb : c ∈ s.banks := (bankOf_eq_some.mp hbank).1
  obtain ⟨ip, hip⟩ := ht.addr hcb
  have hi := hinf ip hip
  have hbanks := hp.banks_eq hg (by rw [hev]; rfl)
  have hbase : s'.Base := ht.toBase.step hg hp (fun a => hc.orderly hg) hi.anchored
    fun a ha' hna => absurd ((hbanks a).mp ha') hna
  have hof : s.book.Of x.client m := (Book.of_iff hx).mpr rfl
  refine ⟨hbase, hi.fresh ht hg hp, fun k v' hv' => ?_⟩
  rw [hi.view k] at hv'
  obtain ⟨v, hv, rfl⟩ := Option.map_eq_some_iff.mp hv'
  by_cases hst : v.standing = .client x.client
  · rw [ConnView.inform_of_eq hst]
    -- the acknowledged mapping is the only one of the client on the global list
    have hbook : s'.book = s.book.ack c := by
      rw [hev] at hp
      exact congrArg Ledger.toBook hp.ledger
    have hack : s.book.ack c = s.book.stateChange m .active (some (c, .mapsActive)) := by
      unfold Book.ack
      rw [show s.book.maps c .mapsUnack = m :: ms from hm]
    have hx' : s'.heap m = some { x with state := .active } := by
      show s'.book.heap m = _
      rw [hbook, hack, Book.stateChange_heap_self, show s.book.heap m = some x from hx]
      rfl
    have hmem : m ∈ s'.mappings := by
      show m ∈ s'.book.mappings
      rw [hbook, Book.ack_mappings]
      exact ht.active_mem hg hin (.inr rfl)
    refine hbase.honest_tell (hp.good hg) (x := { x with state := .active }) hmem hx'
      (fun a ha => ?_) (ht.views k v hv).told hst
    have hma : m ∈ s'.maps c .mapsActive := by
      show m ∈ s'.book.maps c .mapsActive
      rw [hbook, hack, Book.mem_stateChange]
      exact .inr ⟨rfl, rfl⟩
    obtain ⟨rfl, _⟩ := (hp.good hg).book.unique (b := s'.book) hma ha
    exact ⟨(hi.anchored.addr ht.toBase hcb ((hbanks c).mpr hcb)).trans hip, rfl⟩
  · rw [ConnView.inform_of_ne hst]
    refine (ht.views k v hv).step ht.toBase hg hp hi.anchored (fun cs e a m' ms' he hm' hof' => ?_)
      fun cs e _ => by rw [hev]; trivial
    obtain rfl := Event.ack.inj (he.symm.trans hev)
    obtain ⟨rfl, _⟩ := List.cons.inj (hm'.symm.trans hm)
    exact hst (e.trans (by rw [(Book.of_iff hx).mp hof']))

theorem Truth.unmap (ht : s.Truth) (hg : s.Good) {r : ResultCode}
    (hop : op = .rx c (.removeMappingRes r)) (hev : s.event op = .unmap c)
    (hp : Performs s (s.event op) s') (hc : s.Careful op) (hr : s.removeMapRes c = .ok s') :
    s'.Truth := by
  obtain ⟨m, ms, x, hm, hx, hi⟩ := removeMapRes_informs hg hr
  have hbanks := hp.banks_eq hg (by rw [hev]; rfl)
  have hbase : s'.Base := ht.toBase.step hg hp (fun a => hc.orderly hg) hi.anchored
    fun a ha' hna => absurd ((hbanks a).mp ha') hna
  have hnack : ∀ a, s.event op ≠ .ack a := fun a => by rw [hev]; nofun
  refine ⟨hbase, hi.fresh ht hg hp, fun k v' hv' => ?_⟩
  rw [hi.view k] at hv'
  obtain ⟨v, hv, rfl⟩ := Option.map_eq_some_iff.mp hv'
  by_cases hst : v.standing = .client x.client
  · rw [ConnView.inform_of_eq hst]
    refine ⟨told_tell (ht.views k v hv).told, fun _ => by rw [ConnView.tell_bankd],
      fun cs e a m' bs hm' he => ?_, fun cs e hport => absurd (by rw [ConnView.tell_bankd]) hport⟩
    rw [ConnView.tell_standing, hst] at e
    obtain rfl := Standing.client.inj e
    obtain ⟨hold, hact⟩ := hp.active hg hm' he
    rcases hact with hact | ⟨hack, _⟩
    · subst hop
      obtain ⟨_, _, _, hb⟩ := hg.book.linked a _ m' hact
      exact absurd (isOf_iff.mpr ⟨bs, hold⟩) (hc m (by rw [hm]; rfl) x hx (joined_of_view hg hv hst).1 a
        (bankOf_eq_some.mp hb).1 m' hact)
    · exact absurd hack (hnack a)
  · rw [ConnView.inform_of_ne hst]
    refine (ht.views k v hv).step ht.toBase hg hp hi.anchored
      (fun cs _ a m' ms' he => absurd he (hnack a)) fun cs e _ => ?_
    rw [hev]
    intro m' ms' hm' hof'
    obtain ⟨rfl, _⟩ := List.cons.inj (hm'.symm.trans hm)
    exact hst (e.trans (by rw [(Book.of_iff hx).mp hof']))

/-- **A careful step keeps clients informed.** -/
theorem Truth.step (ht : s.Truth) (hg : s.Good) (hst : lts.step s op s') (hc : s.Careful op) :
    s'.Truth := by
  have hp := step_performs hg hst
  have hka : ∀ c, op = .kaTimeout c → c ∉ s.banks := by
    rintro c rfl
    exact hc
  cases step_turn hg hst hka with
  | still h hev => exact ht.still hg hp hc h hev
  | accept a hop hs =>
      subst hop hs
      exact ht.accept hg hp
  | bank c bankId n hop ha hb h =>
      subst hop
      refine ht.bank hg hp hc (fun a => ?_) hb (hc ha) h
      simp only [event, rxEvent]
      split_ifs
      · exact connect_ne c _ a
      · exact quiet_ne a
  | client c cs hev hpt h hr => exact ht.client hg hev hp hc hpt h hr
  | ack c hev hr => exact ht.ack hg hev hp hc hr
  | unmap c r hop hev hr => exact ht.unmap hg hop hev hp hc hr

theorem truth_initial : initial.Truth := by
  refine ⟨⟨nofun, listing_initial, nofun⟩, fun _ _ => rfl, ?_⟩
  rintro c v ⟨⟩

end Server

namespace Net

variable {n : Net} {c k : ConnId}

/-- The step of the server that a label stands for. -/
def Label.toOp : Label → Server.Op
  | .op o => o
  | .answer c k r => .rx c (k.response r)

theorem step_srv {n' : Net} {lab : Label} (h : lts.step n lab n') :
    Server.lts.step n.srv lab.toOp n'.srv := by
  cases lab with
  | op o => exact (step_op.mp h).2.1
  | answer c k r => exact (step_answer.mp h).2.1

/-- No request to a bank is unanswered, and no notification is pending. -/
def Quiet (n : Net) : Prop :=
  (∀ c ∈ n.srv.banks, n.unanswered c .create = [] ∧ n.unanswered c .remove = []) ∧
    n.srv.eventfd = false

instance : Decidable n.Quiet := by
  unfold Quiet
  infer_instance

theorem reach_truth (h : lts.Reach (fun n lab => n.srv.Careful lab.toOp) n) : n.srv.Truth := by
  refine h.invariant_of (I := fun n => n.srv.Truth) (J := Synced) (fun _ => reach_synced) ?_ ?_
  · rintro n (rfl : n = initial)
    exact Server.truth_initial
  · intro n lab n' hs _ ht hc hst
    exact ht.step hs.good (step_srv hst) hc

theorem Quiet.not_leaving (h : n.Quiet) (hs : n.Synced) (ht : n.srv.Truth) {m : MapId} :
    ¬n.srv.book.Leaving c m := by
  intro hl
  have hc := Server.leaving_bank hs.good hl
  obtain ⟨v, hv, hst, _⟩ := ht.alive c hc
  obtain ⟨q, hq, hstand, _⟩ := Server.conn_of_view hv
  have hlive : n.srv.ledger.live c = true := by
    refine Server.live_iff.mpr (Server.fi_eq_some.mpr ⟨q, hq, ?_⟩)
    rw [hst] at hstand
    unfold Conn.standing at hstand
    split at hstand <;> simp_all
  rcases hl with hl | hl
  · have hnil : n.srv.book.maps c .mapsDelreq = [] := ((ht.tidy c hc).flushed hlive h.2).2
    rw [hnil] at hl
    cases hl
  · obtain ⟨x, hx⟩ := hs.good.book.heap_of_mem hl
    obtain ⟨t, htx⟩ := Book.tx_some (k := .remove) hx
    have hpend : t ∈ n.unanswered c .remove := by
      rw [hs.bank c hc]
      exact List.mem_filterMap.mpr ⟨m, hl, htx⟩
    rw [(h.1 c hc).2] at hpend
    cases hpend

/-- **Clients are told the truth about their bankd.**  In every run of careful steps, in every state
in which no request is unanswered and no notification is pending: if a mapping of a connected client
is active, the last `ConfigClientBankReq` sent to the client has the bank slot of the mapping, the
address of the connection of its bank and the port of bankds; and if the client has no mapping, none
was sent or the last one had port 0. -/
theorem careful_informed (h : lts.Reach (fun n lab => n.srv.Careful lab.toOp) n) (hq : n.Quiet) :
    n.srv.Informed := by
  have hs := reach_synced h
  have ht := reach_truth h
  intro k q hk hf
  have hv : n.srv.view k =
      some ⟨.client q.clientSlot, q.peer.bind Peer.addr, q.bankd, n.srv.told k⟩ := by
    rw [Server.view_eq hk]
    simp [Conn.standing, hf]
  have hon := ht.views k _ hv
  refine ⟨fun m x hx hst hcs => ?_, fun hnone => ?_⟩
  · obtain ⟨c, hconn, hact⟩ := hs.good.book.conn_of_active hs.good.bankdConnById_iff hx hst
    obtain ⟨ip, hip, hbankd⟩ := hon.serves _ rfl c m x.bank hact (by
      unfold Book.slotsOf
      rw [show n.srv.book.heap m = some x from hx, ← hcs]
      rfl)
    refine ⟨c, ip, hconn, hip, ?_⟩
    have hb : q.bankd = ⟨x.bank, ip, 9999⟩ := hbankd
    rcases hon.told with htold | ⟨_, hport⟩
    · refine htold.trans ?_
      show some q.bankd.request = _
      rw [hb]
      rfl
    · rw [hb] at hport
      cases hport
  · rcases hon.told with htold | ⟨htold, _⟩
    · by_cases hport : q.bankd.port = 0
      · exact .inr ⟨_, _, by rw [← hport]; exact htold⟩
      · obtain ⟨m, hof, hm | ⟨c, hl⟩⟩ := hon.holds _ rfl hport
        · exact absurd (Server.isOf_iff.mpr hof) (hnone m hm)
        · exact absurd hl (hq.not_leaving hs ht)
    · exact .inl htold

/-- A bank and a client connect, and a mapping of the client is acknowledged. -/
def servedRun : List Label :=
  [.op (.accept (some 1)), .op (.rx 0 (.connectBankReq .remsimBankd 1 8)),
    .op (.post ⟨1, 0⟩ ⟨5, 0⟩), .op .eventFd, .answer 0 .create .ok, .op (.accept (some 2)),
    .op (.rx 1 (.connectClientReq .remsimClient (some ⟨5, 0⟩)))]

/-- The state at the end of `servedRun`. -/
def served : Net := Transition.after next initial servedRun

/-- The client of `servedRun` has been told the address of the bank. -/
theorem served_informed : ∃ c ip, served.srv.bankdConnById 1 = some c ∧
    served.srv.addr c = some ip ∧
      served.srv.told 1 = some (.configClientBankReq ⟨1, 0⟩ ip 9999) := by
  have h := careful_informed (n := served)
    (Transition.reach_after rfl (by decide) (by decide)) (by decide)
  exact (h 1 ⟨some ⟨some 2⟩, some .connectedClient, 0, 0, ⟨5, 0⟩, ⟨⟨1, 0⟩, 1, 9999⟩⟩ (by decide)
    (by decide)).1 0 ⟨⟨1, 0⟩, ⟨5, 0⟩, .active⟩ (by decide) (by decide) (by decide)

/-- The bank is lost, and the mapping, which is `NEW` again, is deleted. -/
def forsakenRun : List Label := servedRun ++ [.op (.closed 0), .op (.del 65536), .op .eventFd]

/-- The state at the end of `forsakenRun`. -/
def forsaken : Net := Transition.after next initial forsakenRun

/-- **A client is not told that its mapping was deleted while the bank was away.** -/
theorem forsaken_misled :
    ¬∀ n, lts.Reach Transition.Lts.Any n → n.Quiet → n.srv.Informed := by
  intro h
  have hr : lts.Reach Transition.Lts.Any forsaken :=
    Transition.reach_of_exec (c := fun _ _ => true) (w := forsakenRun) (fun _ _ _ => trivial) rfl rfl
      (by decide)
  have hi := h forsaken hr (by decide) 1
    ⟨some ⟨some 2⟩, some .connectedClient, 0, 0, ⟨5, 0⟩, ⟨⟨1, 0⟩, 1, 9999⟩⟩ (by decide) (by decide)
  have htold : forsaken.srv.told 1 = some (.configClientBankReq ⟨1, 0⟩ 1 9999) := by decide
  rcases hi.2 (by decide) with hn | ⟨slot, ip, hz⟩
  · rw [htold] at hn
    cases hn
  · rw [htold] at hz
    cases hz

end Net

end Remsim
