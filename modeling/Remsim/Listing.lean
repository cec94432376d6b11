import Remsim.Refinement
import Remsim.Outstanding

/-! # Bank lists and the global list

Deletion requests take a mapping off the global list at once, whatever its state.  `Listing` says
what this means for the lists of the banks: queued mappings are on the global list, and mappings
whose removal is requested are not.  It holds after every event (`listing_apply`).

Between the two are the mappings that the bankd was asked to create (`Asked`).  They are on the
global list unless they were deleted before they were acknowledged.  `Tidy` excludes this, and also
that mappings are queued without a notification; it is kept by events that are `Orderly`. -/

namespace Remsim

namespace Book

variable {b b' : Book} {c : ConnId}

/-- The create request for the mapping was sent, and no deletion was asked for that the server
would pass on. -/
def Asked (b : Book) (c : ConnId) (m : MapId) : Prop :=
  m ∈ b.maps c .mapsUnack ∨ m ∈ b.maps c .mapsActive

/-- The removal of the mapping is requested. -/
def Leaving (b : Book) (c : ConnId) (m : MapId) : Prop :=
  m ∈ b.maps c .mapsDelreq ∨ m ∈ b.maps c .mapsDeleting

/-- Queued mappings are on the global list, and those whose removal is requested are not. -/
structure Listing (b : Book) : Prop where
  new : ∀ c, ∀ m ∈ b.maps c .mapsNew, m ∈ b.mappings
  gone : ∀ c m, b.Leaving c m → m ∉ b.mappings

/-! ### Deletion requests -/

section Mark

variable {conn : UInt16 → Option ConnId} {m a : MapId} {x : SlotMapping}

theorem mem_mark_mappings (hx : b.heap m = some x) :
    a ∈ (b.mark conn m).mappings ↔ a ∈ b.mappings ∧ a ≠ m := by
  have hh : a ∈ (b.hide m).mappings ↔ a ∈ b.mappings ∧ a ≠ m := by
    simp [hide]
  unfold Book.mark
  rw [hx]
  simp only
  split
  · refine Slotmaps.mem_slotmapDel.trans ?_
    rw [show (b.hide m).toSlotmaps.mappings = (b.hide m).mappings from rfl, hh]
    tauto
  · split
    · exact hh
    · exact hh
  · exact hh

/-- The bank lists after a deletion request: a `NEW` mapping is gone, an active one is moved to
`maps_delreq`, and any other stays. -/
theorem Inv.mem_mark_maps (hb : b.Inv) (hconn : ∀ i k, conn i = some k ↔ b.bankOf k = some i)
    (hx : b.heap m = some x) {l : BankList} : a ∈ (b.mark conn m).maps c l ↔
      (a ∈ b.maps c l ∧ (a = m → x.state ≠ .new ∧ x.state ≠ .active)) ∨
        (a = m ∧ l = .mapsDelreq ∧ m ∈ b.maps c .mapsActive) := by
  have hact : m ∈ b.maps c .mapsActive → x.state = .active := fun hm => hb.state_of_mem hm hx
  by_cases hn : x.state = .new
  · rw [mark_new hx hn, mem_free]
    constructor
    · rintro ⟨ha, hne⟩
      exact .inl ⟨ha, fun e => absurd e hne⟩
    · rintro (⟨ha, hne⟩ | ⟨_, _, hm⟩)
      · exact ⟨ha, fun e => (hne e).1 hn⟩
      · rw [hact hm] at hn
        cases hn
  · by_cases hst : x.state = .active
    · obtain ⟨k, hk, hm⟩ := hb.conn_of_active hconn hx hst
      rw [mark_active hx hst hk, mem_stateChange]
      refine or_congr (and_congr_right fun _ => ?_) (and_congr_right fun _ => ?_)
      · exact ⟨fun hne e => absurd e hne, fun h e => (h e).2 hst⟩
      · simp only [Option.some.injEq, Prod.mk.injEq]
        constructor
        · rintro ⟨rfl, rfl⟩
          exact ⟨rfl, hm⟩
        · rintro ⟨rfl, hm'⟩
          exact ⟨(hb.unique hm hm').1, rfl⟩
    · rw [mark_other hx hn hst]
      constructor
      · exact fun ha => .inl ⟨ha, fun _ => ⟨hn, hst⟩⟩
      · rintro (⟨ha, _⟩ | ⟨_, _, hm⟩)
        · exact ha
        · exact absurd (hact hm) hst

theorem Inv.mem_mark_of_mem (hb : b.Inv) (hconn : ∀ i k, conn i = some k ↔ b.bankOf k = some i)
    {l : BankList} (ha : a ∈ b.maps c l) (h₁ : l ≠ .mapsNew) (h₂ : l ≠ .mapsActive) :
    a ∈ (b.mark conn m).maps c l := by
  cases hx : b.heap m with
  | none =>
      rw [mark_none hx]
      exact ha
  | some x =>
      refine (hb.mem_mark_maps hconn hx).mpr (.inl ⟨ha, ?_⟩)
      rintro rfl
      rw [hb.state_of_mem ha hx]
      exact ⟨BankList.state_ne_new h₁, fun e => h₂ (@BankList.state_injective l .mapsActive e)⟩

theorem Listing.mark (h : b.Listing) (hb : b.Inv)
    (hconn : ∀ i k, conn i = some k ↔ b.bankOf k = some i) (m : MapId) :
    (b.mark conn m).Listing := by
  cases hx : b.heap m with
  | none =>
      rw [mark_none hx]
      exact h
  | some x =>
      refine ⟨fun c a ha => ?_, fun c a ha => ?_⟩
      · rcases (hb.mem_mark_maps hconn hx).mp ha with ⟨ha, hne⟩ | ⟨_, hl, _⟩
        · refine (mem_mark_mappings hx).mpr ⟨h.new c a ha, fun e => ?_⟩
          exact (hne e).1 (hb.state_of_mem (l := .mapsNew) (e ▸ ha) hx)
        · cases hl
      · rw [mem_mark_mappings hx]
        rintro ⟨hg, hne⟩
        refine h.gone c a (ha.imp (fun ha => ?_) fun ha => ?_) hg
        · exact ((hb.mem_mark_maps hconn hx).mp ha).elim And.left fun e => absurd e.1 hne
        · exact ((hb.mem_mark_maps hconn hx).mp ha).elim And.left fun e => absurd e.1 hne

theorem Inv.asked_mark (hb : b.Inv) (hconn : ∀ i k, conn i = some k ↔ b.bankOf k = some i)
    (hx : b.heap m = some x) (ha : (b.mark conn m).Asked c a) :
    b.Asked c a ∧ (a ≠ m ∨ m ∈ b.maps c .mapsUnack) := by
  rcases ha with ha | ha
  · rcases (hb.mem_mark_maps hconn hx).mp ha with ⟨ha, _⟩ | ⟨_, hl, _⟩
    · refine ⟨.inl ha, ?_⟩
      by_cases e : a = m
      · exact .inr (e ▸ ha)
      · exact .inl e
    · cases hl
  · rcases (hb.mem_mark_maps hconn hx).mp ha with ⟨ha, hne⟩ | ⟨_, hl, _⟩
    · exact ⟨.inr ha, .inl fun e => (hne e).2 (hb.state_of_mem (l := .mapsActive) (e ▸ ha) hx)⟩
    · cases hl

end Mark

theorem Listing.markAll {conn : UInt16 → Option ConnId} :
    ∀ (ms : List MapId) {b : Book}, b.Listing → b.Inv →
      (∀ i k, conn i = some k ↔ b.bankOf k = some i) → (b.markAll conn ms).Listing
  | [], _, h, _, _ => h
  | m :: ms, b, h, hb, hconn =>
      Listing.markAll ms (h.mark hb hconn m) (hb.mark hconn m)
        fun i k => by rw [mark_bankOf]; exact hconn i k

/-- If no unacknowledged mapping is deleted, what the bankd is asked for stays listed. -/
theorem Inv.kept_markAll {conn : UInt16 → Option ConnId} :
    ∀ (ms : List MapId) {b : Book}, b.Inv → (∀ i k, conn i = some k ↔ b.bankOf k = some i) →
      (∀ m ∈ ms, m ∉ b.maps c .mapsUnack) → (∀ a, b.Asked c a → a ∈ b.mappings) →
      ∀ a, (b.markAll conn ms).Asked c a → a ∈ (b.markAll conn ms).mappings
  | [], _, _, _, _, h => h
  | m :: ms, b, hb, hconn, hms, h => by
      have hkeep : (b.mark conn m).maps c .mapsUnack = b.maps c .mapsUnack :=
        (hb.keeps_mark hconn m c .create).1
      refine Inv.kept_markAll ms (hb.mark hconn m)
        (fun i k => by rw [mark_bankOf]; exact hconn i k) (fun a ha => ?_) fun a ha => ?_
      · rw [hkeep]
        exact hms a (List.mem_cons_of_mem _ ha)
      · change (b.mark conn m).Asked c a at ha
        show a ∈ (b.mark conn m).mappings
        cases hx : b.heap m with
        | none =>
            rw [mark_none hx] at ha ⊢
            exact h a ha
        | some x =>
            obtain ⟨ha, hne⟩ := hb.asked_mark hconn hx ha
            exact (mem_mark_mappings hx).mpr
              ⟨h a ha, hne.resolve_right (hms m List.mem_cons_self)⟩

/-! ### New mappings -/

section Post

variable {bs : BankSlot} {cs : ClientSlot} {r : MapId × Slotmaps}

theorem Inv.next_not_mem (hb : b.Inv) {l : BankList} {m : MapId} (hm : m ∈ b.maps c l) :
    m ≠ b.next := by
  obtain ⟨x, hx⟩ := hb.heap_of_mem hm
  exact Nat.ne_of_lt (hb.wf.fresh m x hx)

theorem Inv.mem_post_mappings (hb : b.Inv) (ha : b.slotmapAdd bs cs = some r)
    (dst : Option ConnId) (m : MapId) :
    m ∈ (b.post bs cs dst).mappings ↔ m ∈ b.mappings ∨ m = b.next := by
  rw [(hb.post_spec ha dst).1]
  simp [Slotmaps.alloc]

theorem Inv.mem_post_maps (hb : b.Inv) (ha : b.slotmapAdd bs cs = some r) (dst : Option ConnId)
    {l : BankList} {m : MapId} : m ∈ (b.post bs cs dst).maps c l ↔
      m ∈ b.maps c l ∨ (m = b.next ∧ dst = some c ∧ l = .mapsNew) := by
  rw [(hb.post_spec ha dst).2.2, List.mem_append]
  split_ifs with h <;> simp [h]

theorem Inv.slotsOf_post (hb : b.Inv) (ha : b.slotmapAdd bs cs = some r) (dst : Option ConnId)
    (m : MapId) :
    (b.post bs cs dst).slotsOf m = if m = b.next then some (bs, cs) else b.slotsOf m := by
  unfold slotsOf
  rw [(hb.post_spec ha dst).1]
  split_ifs with h
  · rw [h, Slotmaps.alloc_heap_next]
    rfl
  · rw [Slotmaps.alloc_heap_of_ne h]

theorem Listing.post (h : b.Listing) (hb : b.Inv) (bs : BankSlot) (cs : ClientSlot)
    (dst : Option ConnId) : (b.post bs cs dst).Listing := by
  cases ha : b.slotmapAdd bs cs with
  | none =>
      rw [post_of_none ha]
      exact h
  | some r =>
      refine ⟨fun c m hm => ?_, fun c m hm => ?_⟩
      · rw [hb.mem_post_mappings ha]
        rcases (hb.mem_post_maps ha dst).mp hm with hm | ⟨hm, _⟩
        · exact .inl (h.new c m hm)
        · exact .inr hm
      · have hold : b.Leaving c m := by
          rcases hm with hm | hm
          · rcases (hb.mem_post_maps ha dst).mp hm with hm | ⟨_, _, hl⟩
            · exact .inl hm
            · cases hl
          · rcases (hb.mem_post_maps ha dst).mp hm with hm | ⟨_, _, hl⟩
            · exact .inr hm
            · cases hl
        rw [hb.mem_post_mappings ha]
        rintro (hg | hg)
        · exact h.gone c m hold hg
        · exact hold.elim (fun hm => hb.next_not_mem hm hg) fun hm => hb.next_not_mem hm hg

end Post

/-! ### Pushing -/

theorem Listing.push (h : b.Listing) (hb : b.Inv) (k : ConnId) : (b.push k).Listing := by
  refine ⟨fun c m hm => ?_, fun c m hm => ?_⟩
  · rw [hb.push_maps] at hm
    rw [push_mappings]
    split_ifs at hm
    · cases hm
    · exact h.new c m hm
  · unfold Leaving at hm
    rw [hb.push_maps, hb.push_maps] at hm
    rw [push_mappings]
    split_ifs at hm with e
    · simp only [List.not_mem_nil, false_or, List.mem_append] at hm
      exact h.gone k m hm.symm
    · exact h.gone c m hm

theorem Listing.pushAll :
    ∀ (cs : List ConnId) {b : Book}, b.Listing → b.Inv → (b.pushAll cs).Listing
  | [], _, h, _ => h
  | c :: cs, _, h, hb => Listing.pushAll cs (h.push hb c) (hb.push c)

/-! ### Responses -/

theorem ack_mappings (k : ConnId) : (b.ack k).mappings = b.mappings := by
  unfold Book.ack
  split <;> rfl

theorem Inv.asked_ack (hb : b.Inv) (k : ConnId) (a : MapId) :
    (b.ack k).Asked c a ↔ b.Asked c a := by
  unfold Book.ack
  cases hm : b.maps k .mapsUnack with
  | nil => exact Iff.rfl
  | cons m ms =>
      have hin : m ∈ b.maps k .mapsUnack := by rw [hm]; exact List.mem_cons_self
      have hmk : ∀ {l}, m ∈ b.maps c l → k = c := fun hm' => (hb.unique hin hm').1
      simp only [Asked, mem_stateChange, Option.some.injEq, Prod.mk.injEq, reduceCtorEq,
        and_false, or_false, and_true]
      by_cases ha : a = m
      · subst ha
        simp only [ne_eq, not_true_eq_false, and_false, true_and, false_or]
        constructor
        · rintro rfl
          exact .inl hin
        · rintro (ha | ha)
          · exact hmk ha
          · exact hmk ha
      · simp only [ne_eq, ha, not_false_eq_true, and_true, false_and, or_false]

theorem Inv.ack_maps (hb : b.Inv) (k : ConnId) {l : BankList} (h₁ : l ≠ .mapsUnack)
    (h₂ : l ≠ .mapsActive) : (b.ack k).maps c l = b.maps c l := by
  cases hm : b.maps k .mapsUnack with
  | nil =>
      unfold Book.ack
      rw [hm]
  | cons m ms => exact ((hb.ack_spec hm).2 c l (fun e => h₁ (Prod.mk.inj e).2) h₂).1

theorem Listing.ack (h : b.Listing) (hb : b.Inv) (k : ConnId) : (b.ack k).Listing := by
  refine ⟨fun c m hm => ?_, fun c m hm => ?_⟩
  · rw [hb.ack_maps k (by decide) (by decide)] at hm
    rw [ack_mappings]
    exact h.new c m hm
  · unfold Leaving at hm
    rw [hb.ack_maps k (by decide) (by decide), hb.ack_maps k (by decide) (by decide)] at hm
    rw [ack_mappings]
    exact h.gone c m hm

/-- A remove response frees a mapping of the list `maps_deleting`, if there is one. -/
theorem Inv.unmap_cases (hb : b.Inv) (k : ConnId) :
    b.unmap k = b ∨ ∃ m ∈ b.maps k .mapsDeleting, b.unmap k = b.free m ∧
      ∀ c l, l ≠ .mapsDeleting → (b.unmap k).maps c l = b.maps c l := by
  cases hm : b.maps k .mapsDeleting with
  | nil =>
      refine .inl ?_
      unfold Book.unmap
      rw [hm]
  | cons m ms =>
      refine .inr ⟨m, List.mem_cons_self, ?_, fun c l h₁ =>
        ((hb.unmap_spec hm).2 c l fun e => h₁ (Prod.mk.inj e).2).1⟩
      unfold Book.unmap
      rw [hm]

theorem Listing.unmap (h : b.Listing) (hb : b.Inv) (k : ConnId) : (b.unmap k).Listing := by
  rcases hb.unmap_cases k with e | ⟨m, hin, hun, hkeep⟩
  · rw [e]
    exact h
  · refine ⟨fun c a ha => ?_, fun c a ha hg => ?_⟩
    · rw [hkeep c _ (by decide)] at ha
      rw [hun]
      refine Slotmaps.mem_slotmapDel.mpr ⟨h.new c a ha, ?_⟩
      rintro rfl
      cases (hb.unique hin ha).2
    · rw [hun] at ha hg
      exact h.gone c a (ha.imp (fun ha => (mem_free.mp ha).1) fun ha => (mem_free.mp ha).1)
        (Slotmaps.mem_slotmapDel.mp hg).1

/-! ### Connections -/

theorem Inv.mem_drop (hb : b.Inv) {k : ConnId} (hne : c ≠ k) {l : BankList} {m : MapId}
    (hm : m ∈ b.maps c l) : m ∈ (b.drop k).mappings ↔ m ∈ b.mappings := by
  have hD : ¬b.Doomed k m := by
    rintro (hd | hd)
    · exact hne (hb.unique hm hd).1
    · exact hne (hb.unique hm hd).1
  show m ∈ (b.unlinkAll k).mappings ↔ _
  rw [(hb.unlinkAll_spec k).1, List.mem_filter]
  simp [hD]

theorem Inv.drop_maps (hb : b.Inv) (k : ConnId) (l : BankList) :
    (b.drop k).maps c l = if c = k then [] else b.maps c l :=
  (hb.unlinkAll_spec k).2.2.2.1 c l

theorem Listing.drop (h : b.Listing) (hb : b.Inv) (k : ConnId) : (b.drop k).Listing := by
  refine ⟨fun c m hm => ?_, fun c m hm => ?_⟩
  · rw [hb.drop_maps] at hm
    split_ifs at hm with e
    · cases hm
    · exact (hb.mem_drop e hm).mpr (h.new c m hm)
  · unfold Leaving at hm
    rw [hb.drop_maps, hb.drop_maps] at hm
    split_ifs at hm with e
    · rcases hm with hm | hm
      · cases hm
      · cases hm
    · intro hg
      refine h.gone c m hm (hm.elim (fun hm => ?_) fun hm => ?_)
      · exact (hb.mem_drop e hm).mp hg
      · exact (hb.mem_drop e hm).mp hg

theorem connect_mappings (k : ConnId) (id : UInt16) : (b.connect k id).mappings = b.mappings := by
  unfold Book.connect
  rw [push_mappings]
  refine ListLib.foldl_fixed (fun b : Book => b.mappings) _ (fun b m => ?_) b.mappings _
  split_ifs <;> rfl

theorem Listing.connect (h : b.Listing) (hb : b.Inv) {k : ConnId} {id : UInt16}
    (hk : b.bankOf k = none) (hid : ∀ k, b.bankOf k ≠ some id) : (b.connect k id).Listing := by
  have hmaps := hb.connect_maps hk hid
  refine ⟨fun c m hm => ?_, fun c m hm => ?_⟩
  · rw [connect_mappings]
    by_cases e : c = k
    · simp [hmaps, e] at hm
    · rw [hmaps, if_neg e] at hm
      exact h.new c m hm
  · rw [connect_mappings]
    by_cases e : c = k
    · simp [Leaving, hmaps, e] at hm
    · unfold Leaving at hm
      rw [hmaps, hmaps, if_neg e, if_neg e] at hm
      exact h.gone c m hm

end Book

/-! ### Events -/

namespace Ledger

variable {g : Ledger} {ev : Event} {c : ConnId}

/-- **Every event keeps the global list in step with the bank lists.** -/
theorem listing_apply (h : g.Listing) (hb : g.toBook.Inv) (hv : g.Valid ev) :
    (g.apply ev).Listing := by
  cases ev with
  | quiet => exact h
  | post bs cs dst => exact Book.Listing.post h hb bs cs dst
  | marks conn ms => exact Book.Listing.markAll ms h hb hv.1
  | eventFd cs => exact Book.Listing.pushAll cs h hb
  | push k => exact Book.Listing.push h hb k
  | connect k id => exact Book.Listing.connect h hb hv.1 hv.2
  | drop k => exact Book.Listing.drop h hb k
  | kill k => exact h
  | ack k => exact Book.Listing.ack h hb k
  | unmap k => exact Book.Listing.unmap h hb k

/-- What the bankd was asked for is on the global list, and nothing is queued without a
notification. -/
structure Tidy (g : Ledger) (c : ConnId) : Prop where
  kept : ∀ m, g.Asked c m → m ∈ g.mappings
  flushed : g.live c = true → g.pending = false →
    g.maps c .mapsNew = [] ∧ g.maps c .mapsDelreq = []

/-- The event deletes no unacknowledged mapping of the connection, and a notification does not
find both new mappings and deletions queued there. -/
def Orderly (g : Ledger) (c : ConnId) : Event → Prop
  | .marks _ ms => ∀ m ∈ ms, m ∉ g.maps c .mapsUnack
  | .eventFd _ => g.maps c .mapsNew = [] ∨ g.maps c .mapsDelreq = []
  | _ => True

/-- The rule for events that queue nothing on the connection. -/
theorem Tidy.of_lists {g' : Ledger} (h : g.Tidy c) (hasked : ∀ m, g'.Asked c m → g.Asked c m)
    (hmem : ∀ m, g.Asked c m → m ∈ g.mappings → m ∈ g'.mappings)
    (hnew : g'.maps c .mapsNew = g.maps c .mapsNew)
    (hdel : g'.maps c .mapsDelreq = g.maps c .mapsDelreq)
    (hlive : g'.live c = true → g.live c = true)
    (hpend : g'.pending = false → g.pending = false) : g'.Tidy c := by
  refine ⟨fun m hm => hmem m (hasked m hm) (h.kept m (hasked m hm)), fun hl hp => ?_⟩
  rw [hnew, hdel]
  exact h.flushed (hlive hl) (hpend hp)

theorem Tidy.post (h : g.Tidy c) (hb : g.toBook.Inv) (bs : BankSlot) (cs : ClientSlot)
    (dst : Option ConnId) : (g.apply (.post bs cs dst)).Tidy c := by
  have hpend : (g.apply (.post bs cs dst)).pending = false → g.pending = false ∧
      ((g.slotmapAdd bs cs).isSome && dst.isSome) = false := Bool.or_eq_false_iff.mp
  cases hadd : g.slotmapAdd bs cs with
  | none =>
      have hbook : (g.apply (.post bs cs dst)).toBook = g.toBook := Book.post_of_none hadd dst
      refine h.of_lists ?_ ?_ ?_ ?_ id fun hp => (hpend hp).1
      · rw [hbook]
        exact fun _ => id
      · rw [hbook]
        exact fun _ _ => id
      · rw [hbook]
      · rw [hbook]
  | some r =>
      have hlists : ∀ l, dst ≠ some c ∨ l ≠ .mapsNew →
          (g.apply (.post bs cs dst)).maps c l = g.maps c l := by
        intro l hl
        refine ((Book.Inv.post_spec hb hadd dst).2.2 c l).trans ?_
        rw [if_neg (fun e => hl.elim (fun h => h e.1) fun h => h e.2), List.append_nil]
      refine ⟨fun m hm => ?_, fun hl hp => ?_⟩
      · have hm' : g.Asked c m := by
          unfold Book.Asked at hm ⊢
          rwa [hlists _ (.inr (by decide)), hlists _ (.inr (by decide))] at hm
        exact (hb.mem_post_mappings hadd dst m).mpr (.inl (h.kept m hm'))
      · obtain ⟨hp, hd⟩ := hpend hp
        have hdst : dst ≠ some c := by
          rintro rfl
          rw [hadd] at hd
          cases hd
        rw [hlists _ (.inl hdst), hlists _ (.inl hdst)]
        exact h.flushed hl hp

theorem Tidy.kept_push (h : g.Tidy c) (hl : g.Listing) (hb : g.toBook.Inv) (k : ConnId) :
    ∀ m, (g.toBook.push k).Asked c m → m ∈ g.mappings := by
  intro m hm
  unfold Book.Asked at hm
  rw [hb.push_maps, hb.push_maps] at hm
  split_ifs at hm with e
  · subst e
    simp only [List.mem_append] at hm
    rcases hm with (hm | hm) | hm
    · exact h.kept m (.inl hm)
    · exact hl.new c m hm
    · exact h.kept m (.inr hm)
  · exact h.kept m hm

theorem Tidy.eventFd (h : g.Tidy c) (hl : g.Listing) (hb : g.toBook.Inv) {cs : List ConnId}
    (hv : g.Valid (.eventFd cs))
    (hone : g.maps c .mapsNew = [] ∨ g.maps c .mapsDelreq = []) :
    (g.apply (.eventFd cs)).Tidy c := by
  have hmaps : ∀ l, (g.apply (.eventFd cs)).maps c l =
      if c ∈ cs then (g.toBook.push c).maps c l else g.maps c l :=
    Book.Inv.pushAll_maps cs hb hv.2.1 c
  refine ⟨fun m hm => ?_, fun hlive _ => ?_⟩
  · show m ∈ (g.toBook.pushAll cs).mappings
    rw [Book.pushAll_mappings]
    unfold Book.Asked at hm
    rw [hmaps, hmaps] at hm
    split_ifs at hm
    · exact h.kept_push hl hb c m hm
    · exact h.kept m hm
  · have hc : c ∈ cs := (hv.2.2 c).mpr ⟨hlive, hone⟩
    rw [hmaps, hmaps, if_pos hc, if_pos hc, hb.push_maps, hb.push_maps, if_pos rfl, if_pos rfl]
    exact ⟨rfl, rfl⟩

theorem Tidy.push (h : g.Tidy c) (hl : g.Listing) (hb : g.toBook.Inv) (k : ConnId) :
    (g.apply (.push k)).Tidy c := by
  refine ⟨fun m hm => ?_, fun hlive hp => ?_⟩
  · show m ∈ (g.toBook.push k).mappings
    rw [Book.push_mappings]
    exact h.kept_push hl hb k m hm
  · show (g.toBook.push k).maps c _ = [] ∧ (g.toBook.push k).maps c _ = []
    rw [hb.push_maps, hb.push_maps]
    split_ifs
    · exact ⟨rfl, rfl⟩
    · exact h.flushed hlive hp

theorem live_update_false {k : ConnId} (hl : Function.update g.live k false c = true) :
    g.live c = true := by
  by_cases e : c = k
  · rw [e, Function.update_self] at hl
    cases hl
  · rwa [Function.update_of_ne e] at hl

/-- **An orderly event keeps a bank tidy**, unless it is its connection or its loss. -/
theorem Tidy.apply (h : g.Tidy c) (hl : g.Listing) (hb : g.toBook.Inv) (hv : g.Valid ev)
    (hord : g.Orderly c ev) (hcon : ∀ id, ev ≠ .connect c id) (hdrop : ev ≠ .drop c) :
    (g.apply ev).Tidy c := by
  cases ev with
  | quiet => exact h
  | post bs cs dst => exact h.post hb bs cs dst
  | marks conn ms =>
      refine ⟨Book.Inv.kept_markAll ms hb hv.1 hord h.kept, fun _ hp => ?_⟩
      cases hp
  | eventFd cs => exact h.eventFd hl hb hv hord
  | push k => exact h.push hl hb k
  | connect k i =>
      have hne : c ≠ k := fun e => hcon i (e ▸ rfl)
      have hmaps : ∀ l, (g.apply (.connect k i)).maps c l = g.maps c l :=
        fun l => (hb.keeps_connect hv.1 hv.2 hne l).1
      refine h.of_lists (fun m => ?_) (fun m _ hm => ?_) (hmaps _) (hmaps _) (fun hl => ?_) id
      · unfold Book.Asked
        rw [hmaps, hmaps]
        exact id
      · show m ∈ (g.toBook.connect k i).mappings
        rwa [Book.connect_mappings]
      · change Function.update g.live k true c = true at hl
        rwa [Function.update_of_ne hne] at hl
  | drop k =>
      have hne : c ≠ k := fun e => hdrop (e ▸ rfl)
      have hmaps : ∀ l, (g.apply (.drop k)).maps c l = g.maps c l :=
        fun l => (hb.keeps_drop hne l).1
      refine h.of_lists (fun m => ?_) (fun m hm hg => ?_) (hmaps _) (hmaps _) live_update_false id
      · unfold Book.Asked
        rw [hmaps, hmaps]
        exact id
      · rcases hm with hm | hm
        · exact (hb.mem_drop hne hm).mpr hg
        · exact (hb.mem_drop hne hm).mpr hg
  | kill k => exact h.of_lists (fun _ => id) (fun _ _ => id) rfl rfl live_update_false id
  | ack k =>
      refine h.of_lists (fun m => (hb.asked_ack k m).mp) (fun m _ hm => ?_) ?_ ?_ id id
      · show m ∈ (g.toBook.ack k).mappings
        rwa [Book.ack_mappings]
      · exact hb.ack_maps k (by decide) (by decide)
      · exact hb.ack_maps k (by decide) (by decide)
  | unmap k =>
      rcases hb.unmap_cases k with e | ⟨m, hin, hun, hkeep⟩
      · have hbook : (g.apply (.unmap k)).toBook = g.toBook := e
        refine h.of_lists ?_ ?_ ?_ ?_ id id
        · rw [hbook]
          exact fun _ => id
        · rw [hbook]
          exact fun _ _ => id
        · rw [hbook]
        · rw [hbook]
      · refine h.of_lists (fun a ha => ?_) (fun a ha hg => ?_) (hkeep c _ (by decide))
          (hkeep c _ (by decide)) id id
        · exact ha.imp (fun ha => by rwa [← hkeep c _ (by decide)])
            fun ha => by rwa [← hkeep c _ (by decide)]
        · show a ∈ (g.toBook.unmap k).mappings
          rw [hun]
          refine Slotmaps.mem_slotmapDel.mpr ⟨hg, ?_⟩
          rintro rfl
          rcases ha with ha | ha
          · cases (hb.unique hin ha).2
          · cases (hb.unique hin ha).2

theorem tidy_connect (hb : g.toBook.Inv) {id : UInt16} (hv : g.Valid (.connect c id)) :
    (g.apply (.connect c id)).Tidy c := by
  have hmaps : ∀ l, (g.apply (.connect c id)).maps c l =
      if l = .mapsUnack then g.toBook.ofBank id else [] := by
    intro l
    refine (hb.connect_maps hv.1 hv.2 c l).trans ?_
    rw [if_pos rfl]
  refine ⟨fun m hm => ?_, fun _ _ => ⟨hmaps _, hmaps _⟩⟩
  show m ∈ (g.toBook.connect c id).mappings
  rw [Book.connect_mappings]
  unfold Book.Asked at hm
  rw [hmaps, hmaps] at hm
  simp only [if_true, reduceCtorEq, if_false, List.not_mem_nil, or_false] at hm
  exact (Book.mem_ofBank.mp hm).1

/-! ### Slot pairs -/

theorem slotsOf_free {b : Book} {a m : MapId} {e : BankSlot × ClientSlot}
    (h : (b.free a).slotsOf m = some e) : b.slotsOf m = some e := by
  unfold Book.slotsOf at h ⊢
  by_cases he : m = a
  · rw [he, Book.free, Slotmaps.slotmapDel_heap_self] at h
    cases h
  · rwa [Book.free, Slotmaps.slotmapDel_heap_of_ne he] at h

theorem slotsOf_mark {b : Book} {conn : UInt16 → Option ConnId} {a m : MapId}
    {e : BankSlot × ClientSlot} (h : (b.mark conn a).slotsOf m = some e) :
    b.slotsOf m = some e := by
  unfold Book.mark at h
  split at h
  · exact h
  · split at h
    · exact slotsOf_free (b := b.hide a) h
    · split at h
      · exact h
      · rwa [Book.slotsOf_stateChange] at h
    · exact h

theorem slotsOf_markAll {conn : UInt16 → Option ConnId} {m : MapId} {e : BankSlot × ClientSlot} :
    ∀ (ms : List MapId) {b : Book}, (b.markAll conn ms).slotsOf m = some e → b.slotsOf m = some e
  | [], _, h => h
  | _ :: ms, _, h => slotsOf_mark (slotsOf_markAll ms h)

/-- A slot pair is that of a mapping before the event or of the one it adds. -/
theorem slotsOf_apply (hb : g.toBook.Inv) {m : MapId} {e : BankSlot × ClientSlot}
    (h : (g.apply ev).slotsOf m = some e) :
    g.slotsOf m = some e ∨ ∃ dst, ev = .post e.1 e.2 dst := by
  cases ev with
  | quiet => exact .inl h
  | post bs cs dst =>
      change (g.toBook.post bs cs dst).slotsOf m = some e at h
      cases ha : g.slotmapAdd bs cs with
      | none =>
          rw [Book.post_of_none ha] at h
          exact .inl h
      | some r =>
          rw [Book.Inv.slotsOf_post hb ha] at h
          split_ifs at h
          · exact .inr ⟨dst, by rw [← Option.some.inj h]⟩
          · exact .inl h
  | marks conn ms => exact .inl (slotsOf_markAll ms h)
  | eventFd cs => exact .inl (by rwa [← Book.slotsOf_pushAll m cs g.toBook])
  | push k => exact .inl (by rwa [← Book.slotsOf_push k m])
  | connect k id => exact .inl (by rwa [← Book.slotsOf_connect k id m])
  | drop k =>
      refine .inl ?_
      change Option.map _ ((g.toBook.unlinkAll k).heap m) = some e at h
      rw [(hb.unlinkAll_spec k).2.2.2.2 m] at h
      unfold Book.slotsOf
      split_ifs at h
      · cases h
      · rwa [Option.map_map] at h
      · exact h
  | kill k => exact .inl h
  | ack k => exact .inl (by rwa [← Book.slotsOf_ack k m])
  | unmap k =>
      refine .inl ?_
      change (g.toBook.unmap k).slotsOf m = some e at h
      rcases hb.unmap_cases k with hu | ⟨a, _, hu, _⟩
      · rwa [hu] at h
      · rw [hu] at h
        exact slotsOf_free h

end Ledger

/-! ### Server steps -/

namespace Server

variable {s s' : Server} {ev : Event} {c : ConnId}

theorem listing_initial : initial.book.Listing := by
  refine ⟨?_, ?_⟩
  · rintro c m ⟨⟩
  · rintro c m _ ⟨⟩

theorem Performs.listing (hp : Performs s ev s') (hg : s.Good) (h : s.book.Listing) :
    s'.book.Listing := by
  have hbook : s'.book = (s.ledger.apply ev).toBook := congrArg Ledger.toBook hp.ledger
  rw [hbook]
  exact Ledger.listing_apply h hg.book hp.valid

/-- An orderly step keeps banks tidy. -/
theorem Performs.tidy (hp : Performs s ev s') (hg : s.Good) (hl : s.book.Listing)
    (h : c ∈ s.banks → s.ledger.Tidy c) (hord : c ∈ s.banks → s.ledger.Orderly c ev)
    (hc : c ∈ s'.banks) : s'.ledger.Tidy c := by
  rw [hp.ledger]
  by_cases hb : c ∈ s.banks
  · exact (h hb).apply hl hg.book hp.valid (hord hb) (hp.ne_connect hg hb) (hp.ne_drop hg hc)
  · obtain ⟨id, hev⟩ := hp.event_connect hg hb hc
    have hv := hp.valid
    rw [hev] at hv ⊢
    exact Ledger.tidy_connect hg.book hv

end Server

end Remsim
