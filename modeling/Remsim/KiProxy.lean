import Remsim.Process
import Remsim.RoundRobin

/-! # The KI proxy (`worker_handle_ki_proxy()`)

The selection loop of the KI proxy, with the attempts it counts and the pool position it stops at,
and the choice of the worker whose driver performs a transceive.  The positions of the pool in
cyclic order from `next_slot_idx` are a queue served in turn (`RoundRobin.pick`); a position is
ready when its slot exists.

`kiProxyRoundRobin` and `tpduTransceive` of the process are projections of the functions here
(`kiProxyRoundRobin_eq`, `tpduTransceive_eq`). -/

namespace Remsim

/-! ### The selection loop -/

/-- What the selection loop leaves: the position it stopped at, unless its attempts were used up,
and `next_slot_idx`. -/
structure Selection where
  position : Option ℕ
  nextSlotIdx : ℕ
deriving DecidableEq, Repr

variable (pool : List ℕ) (numSlots : ℕ)

/-- The loop, allowed as many iterations as the first argument says; `none` when it would need
more. -/
def kiProxyLoop : ℕ → ℕ → ℕ → Option Selection
  | 0, attempts, nextSlotIdx =>
      if attempts < pool.length then none else some ⟨none, nextSlotIdx⟩
  | n + 1, attempts, nextSlotIdx =>
      if attempts < pool.length then
        let currentIdx := nextSlotIdx
        let selectedSlot := pool.getD currentIdx 0
        let nextSlotIdx := (currentIdx + 1) % pool.length
        if selectedSlot ≥ numSlots then kiProxyLoop n (attempts + 1) nextSlotIdx
        else some ⟨some currentIdx, nextSlotIdx⟩
      else some ⟨none, nextSlotIdx⟩

/-- The selection of one call, with as many iterations as the pool has positions. -/
def kiProxySelection (nextSlotIdx : ℕ) : Selection :=
  (kiProxyLoop pool numSlots pool.length 0 nextSlotIdx).getD ⟨none, nextSlotIdx⟩

/-- Several calls in a row: the positions selected, and `next_slot_idx` after them. -/
def kiProxyCalls : ℕ → ℕ → List (Option ℕ) × ℕ
  | 0, nextSlotIdx => ([], nextSlotIdx)
  | k + 1, nextSlotIdx =>
      let r := kiProxySelection pool numSlots nextSlotIdx
      let rest := kiProxyCalls k r.nextSlotIdx
      (r.position :: rest.1, rest.2)

/-- The slot at a position exists. -/
def validPosition (i : ℕ) : Bool := decide (pool.getD i 0 < numSlots)

variable {pool} {numSlots}

theorem validPosition_iff {i : ℕ} :
    validPosition pool numSlots i = true ↔ pool.getD i 0 < numSlots := decide_eq_true_iff

theorem add_succ_mod (idx j n : ℕ) : ((idx + 1) % n + j) % n = (idx + (j + 1)) % n := by
  rw [Nat.mod_add_mod, Nat.add_assoc, Nat.add_comm 1 j]

/-- **The loop stops at the first valid position**, or uses up its attempts. -/
theorem kiProxyLoop_spec (pool : List ℕ) (numSlots : ℕ) :
    ∀ (n attempts idx : ℕ), attempts + n = pool.length →
    idx < pool.length →
    (∃ k < n, validPosition pool numSlots ((idx + k) % pool.length) = true ∧
        (∀ j < k, validPosition pool numSlots ((idx + j) % pool.length) = false) ∧
        kiProxyLoop pool numSlots n attempts idx =
          some ⟨some ((idx + k) % pool.length), (idx + (k + 1)) % pool.length⟩) ∨
      ((∀ j < n, validPosition pool numSlots ((idx + j) % pool.length) = false) ∧
        kiProxyLoop pool numSlots n attempts idx = some ⟨none, (idx + n) % pool.length⟩)
  | 0, attempts, idx, hn, hidx => by
      have hend : ¬attempts < pool.length := by omega
      refine .inr ⟨fun j hj => absurd hj (Nat.not_lt_zero j), ?_⟩
      rw [kiProxyLoop, if_neg hend, Nat.add_zero, Nat.mod_eq_of_lt hidx]
  | n + 1, attempts, idx, hn, hidx => by
      have hgo : attempts < pool.length := by omega
      have hhere : (idx + 0) % pool.length = idx := by
        rw [Nat.add_zero, Nat.mod_eq_of_lt hidx]
      simp only [kiProxyLoop]
      rw [if_pos hgo]
      by_cases hv : validPosition pool numSlots idx = true
      · have hlt : ¬pool.getD idx 0 ≥ numSlots := Nat.not_le.mpr (validPosition_iff.mp hv)
        refine .inl ⟨0, Nat.succ_pos n, ?_, fun j hj => absurd hj (Nat.not_lt_zero j), ?_⟩
        · rw [hhere]
          exact hv
        · rw [if_neg hlt, hhere]
      · have hge : pool.getD idx 0 ≥ numSlots := Nat.not_lt.mp fun h => hv (validPosition_iff.mpr h)
        have hbad : validPosition pool numSlots ((idx + 0) % pool.length) = false := by
          rw [hhere]
          exact Bool.eq_false_iff.mpr hv
        have hnext : (idx + 1) % pool.length < pool.length := Nat.mod_lt _ (by omega)
        have hskip : ∀ m, (∀ j < m, validPosition pool numSlots
              (((idx + 1) % pool.length + j) % pool.length) = false) →
            ∀ j < m + 1, validPosition pool numSlots ((idx + j) % pool.length) = false := by
          intro m hm j hj
          cases j with
          | zero => exact hbad
          | succ j =>
              rw [← add_succ_mod]
              exact hm j (by omega)
        rw [if_pos hge]
        rcases kiProxyLoop_spec pool numSlots n (attempts + 1) _ (by omega) hnext with
          ⟨k, hk, hvk, hmin, heq⟩ | ⟨hall, heq⟩
        · refine .inl ⟨k + 1, by omega, ?_, hskip k hmin, ?_⟩
          · rw [← add_succ_mod]
            exact hvk
          · rw [heq, add_succ_mod, add_succ_mod]
        · refine .inr ⟨hskip n hall, ?_⟩
          rw [heq, add_succ_mod]

theorem exists_offset {n idx i : ℕ} (hidx : idx < n) (hi : i < n) :
    ∃ j < n, (idx + j) % n = i := by
  by_cases h : idx ≤ i
  · refine ⟨i - idx, by omega, ?_⟩
    rw [Nat.add_sub_cancel' h, Nat.mod_eq_of_lt hi]
  · refine ⟨n - idx + i, by omega, ?_⟩
    have hsum : idx + (n - idx + i) = i + n := by omega
    rw [hsum, Nat.add_mod_right, Nat.mod_eq_of_lt hi]

/-- **A selection is sound**: the first valid position in cyclic order, and `next_slot_idx` one past
it; none when no slot of the pool exists, and `next_slot_idx` as it was. -/
structure Selection.Sound (pool : List ℕ) (numSlots idx : ℕ) (r : Selection) : Prop where
  first : ∀ pos, r.position = some pos → r.nextSlotIdx = (pos + 1) % pool.length ∧
    ∃ k < pool.length, pos = (idx + k) % pool.length ∧ pool.getD pos 0 < numSlots ∧
      ∀ j < k, numSlots ≤ pool.getD ((idx + j) % pool.length) 0
  fails : r.position = none ↔ ∀ slot ∈ pool, numSlots ≤ slot
  kept : r.position = none → r.nextSlotIdx = idx

/-- No position is valid exactly when no slot of the pool exists. -/
theorem forall_invalid_iff : (∀ i < pool.length, validPosition pool numSlots i = false) ↔
    ∀ slot ∈ pool, numSlots ≤ slot := by
  constructor
  · intro h slot hslot
    obtain ⟨i, hi, rfl⟩ := List.mem_iff_getElem.mp hslot
    have hv := Bool.eq_false_iff.mp (h i hi)
    rw [Ne, validPosition_iff, List.getD_eq_getElem _ _ hi] at hv
    exact Nat.not_lt.mp hv
  · intro h i hi
    rw [Bool.eq_false_iff, Ne, validPosition_iff, List.getD_eq_getElem _ _ hi]
    exact Nat.not_lt.mpr (h _ (List.getElem_mem hi))

/-- The loop ends after at most as many iterations as the pool has positions. -/
theorem kiProxyLoop_sound (numSlots : ℕ) {idx : ℕ} (hidx : idx < pool.length) :
    ∃ r, kiProxyLoop pool numSlots pool.length 0 idx = some r ∧ r.Sound pool numSlots idx := by
  rcases kiProxyLoop_spec pool numSlots pool.length 0 idx (Nat.zero_add _) hidx with
    ⟨k, hk, hv, hmin, heq⟩ | ⟨hall, heq⟩
  · refine ⟨_, heq, ?_, ?_, nofun⟩
    · intro pos hpos
      obtain rfl := Option.some.inj hpos
      refine ⟨?_, k, hk, rfl, validPosition_iff.mp hv, fun j hj => ?_⟩
      · rw [Nat.mod_add_mod, Nat.add_assoc]
      · have hno := Bool.eq_false_iff.mp (hmin j hj)
        rw [Ne, validPosition_iff] at hno
        exact Nat.not_lt.mp hno
    · refine ⟨nofun, fun h => ?_⟩
      have hlt : (idx + k) % pool.length < pool.length := Nat.mod_lt _ (by omega)
      rw [forall_invalid_iff.mpr h _ hlt] at hv
      cases hv
  · refine ⟨_, heq, nofun, ?_, fun _ => ?_⟩
    · refine ⟨fun _ => forall_invalid_iff.mp fun i hi => ?_, fun _ => rfl⟩
      obtain ⟨j, hj, rfl⟩ := exists_offset hidx hi
      exact hall j hj
    · show (idx + pool.length) % pool.length = idx
      rw [Nat.add_mod_right, Nat.mod_eq_of_lt hidx]

theorem kiProxySelection_sound (numSlots : ℕ) {idx : ℕ} (hidx : idx < pool.length) :
    (kiProxySelection pool numSlots idx).Sound pool numSlots idx := by
  obtain ⟨r, hr, hs⟩ := kiProxyLoop_sound numSlots hidx
  unfold kiProxySelection
  rw [hr]
  exact hs

theorem Selection.Sound.lt {idx : ℕ} {r : Selection} (h : r.Sound pool numSlots idx)
    (hidx : idx < pool.length) : r.nextSlotIdx < pool.length := by
  cases hp : r.position with
  | none =>
      rw [h.kept hp]
      exact hidx
  | some pos =>
      rw [(h.first pos hp).1]
      exact Nat.mod_lt _ (by omega)

theorem kiProxyCalls_lt (numSlots : ℕ) : ∀ (k idx : ℕ), idx < pool.length →
    (kiProxyCalls pool numSlots k idx).2 < pool.length
  | 0, _, hidx => hidx
  | k + 1, _, hidx => kiProxyCalls_lt numSlots k _ ((kiProxySelection_sound numSlots hidx).lt hidx)

/-! ### The pool as a queue -/

/-- The positions of the pool in cyclic order. -/
def cyclicOrder (n idx : ℕ) : List ℕ := (List.range n).rotate idx

theorem cyclicOrder_getElem? (idx : ℕ) {n k : ℕ} (hk : k < n) :
    (cyclicOrder n idx)[k]? = some ((idx + k) % n) := by
  have hlen : k < ((List.range n).rotate idx).length := by
    rw [List.length_rotate, List.length_range]
    exact hk
  unfold cyclicOrder
  rw [List.getElem?_eq_getElem hlen, List.getElem_rotate, List.getElem_range, List.length_range,
    Nat.add_comm]

theorem nodup_cyclicOrder (n idx : ℕ) : (cyclicOrder n idx).Nodup :=
  List.nodup_rotate.mpr List.nodup_range

theorem mem_cyclicOrder {n idx i : ℕ} : i ∈ cyclicOrder n idx ↔ i < n := by
  unfold cyclicOrder
  rw [List.mem_rotate, List.mem_range]

theorem length_cyclicOrder (n idx : ℕ) : (cyclicOrder n idx).length = n := by
  unfold cyclicOrder
  rw [List.length_rotate, List.length_range]

theorem rotate_cyclicOrder (n idx j : ℕ) :
    (cyclicOrder n idx).rotate j = cyclicOrder n ((idx + j) % n) := by
  have hmod := List.rotate_mod (List.range n) (idx + j)
  rw [List.length_range] at hmod
  unfold cyclicOrder
  rw [List.rotate_rotate, hmod]

/-- **The loop serves the queue of positions in turn.** -/
theorem pick_cyclicOrder {idx : ℕ} (hidx : idx < pool.length) :
    RoundRobin.pick (validPosition pool numSlots) (cyclicOrder pool.length idx) =
      ((kiProxySelection pool numSlots idx).position,
        cyclicOrder pool.length (kiProxySelection pool numSlots idx).nextSlotIdx) := by
  unfold kiProxySelection RoundRobin.pick
  rcases kiProxyLoop_spec pool numSlots pool.length 0 idx (Nat.zero_add _) hidx with
    ⟨k, hk, hv, hmin, heq⟩ | ⟨hall, heq⟩
  · have hget : ∀ j (hj : j < (cyclicOrder pool.length idx).length),
        (cyclicOrder pool.length idx)[j] = (idx + j) % pool.length := by
      intro j hj
      have hj' : j < pool.length := by
        rw [length_cyclicOrder] at hj
        exact hj
      have he := cyclicOrder_getElem? idx hj'
      rw [List.getElem?_eq_getElem hj] at he
      exact Option.some.inj he
    have hlen : k < (cyclicOrder pool.length idx).length := by
      rw [length_cyclicOrder]
      exact hk
    have hfind : (cyclicOrder pool.length idx).findIdx? (validPosition pool numSlots) = some k := by
      rw [List.findIdx?_eq_some_iff_getElem]
      refine ⟨hlen, ?_, fun j hj => ?_⟩
      · rw [hget]
        exact hv
      · rw [hget, hmin j hj]
        exact Bool.false_ne_true
    rw [hfind, heq]
    simp only [Option.getD_some]
    rw [cyclicOrder_getElem? idx hk, rotate_cyclicOrder]
  · have hfind : (cyclicOrder pool.length idx).findIdx? (validPosition pool numSlots) = none := by
      rw [List.findIdx?_eq_none_iff]
      intro i hi
      obtain ⟨j, hj, rfl⟩ := exists_offset hidx (mem_cyclicOrder.mp hi)
      exact hall j hj
    rw [hfind, heq]
    simp only [Option.getD_some]
    rw [Nat.add_mod_right, Nat.mod_eq_of_lt hidx]

theorem kiProxyCalls_picks : ∀ (k idx : ℕ), idx < pool.length →
    (kiProxyCalls pool numSlots k idx).1 =
      RoundRobin.picks (validPosition pool numSlots) k (cyclicOrder pool.length idx)
  | 0, _, _ => rfl
  | k + 1, idx, hidx => by
      have ih := kiProxyCalls_picks k _
        ((kiProxySelection_sound numSlots hidx).lt hidx)
      simp only [kiProxyCalls, RoundRobin.picks]
      rw [ih, pick_cyclicOrder hidx]

theorem countP_cyclicOrder (idx : ℕ) :
    (cyclicOrder pool.length idx).countP (validPosition pool numSlots) =
      pool.countP fun slot => slot < numSlots := by
  have hmap : (List.range pool.length).map (fun i => pool.getD i 0) = pool := by
    refine List.ext_getElem (by rw [List.length_map, List.length_range]) fun i hi hi' => ?_
    rw [List.getElem_map, List.getElem_range, List.getD_eq_getElem _ _ hi']
  have hperm := (List.rotate_perm (List.range pool.length) idx).countP_eq
    (validPosition pool numSlots)
  have hcount : (List.range pool.length).countP (validPosition pool numSlots) =
      ((List.range pool.length).map fun i => pool.getD i 0).countP fun slot => slot < numSlots := by
    rw [List.countP_map]
    rfl
  rw [cyclicOrder, hperm, hcount, hmap]

/-- **The selection of the KI proxy is sound and fair.**  The loop ends within as many iterations as
the pool has positions, and selects soundly; `next_slot_idx` stays in the pool; and wherever it
stands after some calls, as many calls as there are valid positions select each of them once. -/
theorem kiProxy_sound_fair (pool : List ℕ) (numSlots idx : ℕ) (hidx : idx < pool.length) :
    (∃ r, kiProxyLoop pool numSlots pool.length 0 idx = some r ∧ r.Sound pool numSlots idx) ∧
      (∀ k, (kiProxyCalls pool numSlots k idx).2 < pool.length) ∧
      ∀ k m, m = pool.countP (fun slot => slot < numSlots) →
        ∀ i < pool.length, pool.getD i 0 < numSlots →
          (kiProxyCalls pool numSlots m (kiProxyCalls pool numSlots k idx).2).1.count (some i) =
            1 := by
  refine ⟨kiProxyLoop_sound numSlots hidx, fun k => kiProxyCalls_lt numSlots k idx hidx, ?_⟩
  rintro k m rfl i hi hv
  have hlt := kiProxyCalls_lt numSlots k idx hidx
  rw [kiProxyCalls_picks _ _ hlt, ← countP_cyclicOrder (kiProxyCalls pool numSlots k idx).2]
  exact RoundRobin.count_picks_all (nodup_cyclicOrder _ _) (mem_cyclicOrder.mpr hi)
    (validPosition_iff.mpr hv)

/-- A pool of three slots, one of which does not exist. -/
theorem threeSlots_sound_fair :
    (1 < [3, 900, 5].length) ∧
      (∃ r, kiProxyLoop [3, 900, 5] 8 [3, 900, 5].length 0 1 = some r ∧ r.Sound [3, 900, 5] 8 1) ∧
      (kiProxyCalls [3, 900, 5] 8 2 (kiProxyCalls [3, 900, 5] 8 4 1).2).1.count (some 2) = 1 := by
  obtain ⟨hs, _, hf⟩ := kiProxy_sound_fair [3, 900, 5] 8 1 (by decide)
  exact ⟨by decide, hs, hf 4 2 (by decide) 2 (by decide) (by decide)⟩

theorem kiProxyRoundRobin_eq (pool : List ℕ) (numSlots : ℕ) :
    ∀ (n attempts idx : ℕ), attempts + n = pool.length →
    (kiProxyLoop pool numSlots n attempts idx).map
        (fun r => (r.position.map (pool.getD · 0), r.nextSlotIdx)) =
      some (kiProxyRoundRobin pool numSlots n idx)
  | 0, attempts, idx, hn => by
      have hend : ¬attempts < pool.length := by omega
      rw [kiProxyLoop, if_neg hend]
      rfl
  | n + 1, attempts, idx, hn => by
      have hgo : attempts < pool.length := by omega
      simp only [kiProxyLoop, kiProxyRoundRobin]
      rw [if_pos hgo]
      split_ifs
      · exact kiProxyRoundRobin_eq pool numSlots n (attempts + 1) _ (by omega)
      · rfl

/-! ### The card of a TPDU -/

namespace Bankd

variable (d : Bankd)

/-- `worker_handle_ki_proxy()` up to the transceive: the worker whose driver performs it. -/
def kiProxyTarget (i : ℕ) (w : Worker) (apdu : List UInt8) : Option ℕ :=
  if apdu = [] then none
  else
    match d.kiProxySelect.1 with
    | none => none
    | some selected =>
        let proxySlot : BankSlot := ⟨w.slot.bankId, .ofNat selected⟩
        match d.workers.findIdx? fun p =>
          p.slot = proxySlot && p.state = .connClientMappedCard with
        | none => none
        | some j => if j = i then none else some j

/-- The workers whose driver is called to transceive while `worker_handle_tpduModemToCard()` handles
a TPDU for worker `i`. -/
def tpduCalls (i : ℕ) (w : Worker) (src : ClientSlotT) (dst : BankSlotT) (data : List UInt8) :
    List ℕ :=
  if tpduAccepted w src dst then
    if d.kiProxied w data then (d.kiProxyTarget i w data).toList else [i]
  else []

/-- A TPDU for the KI proxy: an authentication, for a virtual slot. -/
def IsForProxy (w : Worker) (data : List UInt8) : Prop :=
  d.kiProxy.enabled = true ∧ 1 < data.length ∧ data[1]? = some 0x88 ∧
    0 < d.kiProxy.virtualSlotEnd ∧ d.kiProxy.virtualSlotStart ≤ w.slot.slotNr.toNat ∧
    w.slot.slotNr.toNat ≤ d.kiProxy.virtualSlotEnd

/-- `next_slot_idx` is an index of the pool, unless that is empty. -/
def PoolIndexed : Prop :=
  d.kiProxy.proxySlots ≠ [] → d.nextSlotIdx < d.kiProxy.proxySlots.length

/-- The slots that the KI proxy may use. -/
def ProxySlot (nr : ℕ) : Prop :=
  nr < d.bank.numSlots.toNat ∧
    if d.kiProxy.proxySlots = [] then nr = d.kiProxy.proxySlot else nr ∈ d.kiProxy.proxySlots

variable {d}

theorem kiProxied_iff {w : Worker} {data : List UInt8} :
    d.kiProxied w data = true ↔ d.IsForProxy w data := by
  unfold kiProxied IsForProxy
  simp only [Bool.and_eq_true, decide_eq_true_eq, gt_iff_lt, and_assoc]

theorem kiProxySelect_pool (h : d.kiProxy.proxySlots ≠ []) (hp : d.PoolIndexed) :
    ∃ r : Selection, r.Sound d.kiProxy.proxySlots d.bank.numSlots.toNat d.nextSlotIdx ∧
      d.kiProxySelect = (r.position.map (d.kiProxy.proxySlots.getD · 0), r.nextSlotIdx) := by
  obtain ⟨r, hr, hs⟩ := kiProxyLoop_sound d.bank.numSlots.toNat (hp h)
  have heq := kiProxyRoundRobin_eq d.kiProxy.proxySlots d.bank.numSlots.toNat
    d.kiProxy.proxySlots.length 0 d.nextSlotIdx (Nat.zero_add _)
  rw [hr] at heq
  refine ⟨r, hs, ?_⟩
  unfold kiProxySelect
  rw [if_pos (List.length_pos_of_ne_nil h)]
  exact (Option.some.inj heq).symm

theorem kiProxySelect_spec (hp : d.PoolIndexed) {selected : ℕ}
    (h : d.kiProxySelect.1 = some selected) : d.ProxySlot selected := by
  unfold ProxySlot
  by_cases hpool : d.kiProxy.proxySlots = []
  · unfold kiProxySelect at h
    rw [hpool] at h
    simp only [List.length_nil, gt_iff_lt, Nat.lt_irrefl, if_false] at h
    split_ifs at h with hge
    obtain rfl := Option.some.inj h
    rw [if_pos hpool]
    exact ⟨Nat.not_le.mp hge, rfl⟩
  · obtain ⟨r, hs, heq⟩ := kiProxySelect_pool hpool hp
    rw [heq] at h
    obtain ⟨pos, hpos, rfl⟩ := Option.map_eq_some_iff.mp h
    obtain ⟨-, k, hk, rfl, hlt, -⟩ := hs.first pos hpos
    have hmod : (d.nextSlotIdx + k) % d.kiProxy.proxySlots.length <
        d.kiProxy.proxySlots.length := Nat.mod_lt _ (by omega)
    rw [if_neg hpool]
    refine ⟨hlt, ?_⟩
    rw [List.getD_eq_getElem _ _ hmod]
    exact List.getElem_mem hmod

/-- **The worker that the KI proxy chooses.** -/
theorem kiProxyTarget_spec (hp : d.PoolIndexed) {i j : ℕ} {w : Worker} {apdu : List UInt8}
    (h : d.kiProxyTarget i w apdu = some j) :
    j ≠ i ∧ ∃ p, d.workers[j]? = some p ∧ p.state = .connClientMappedCard ∧
      p.slot.bankId = w.slot.bankId ∧ d.ProxySlot p.slot.slotNr.toNat := by
  unfold kiProxyTarget at h
  split_ifs at h
  cases hsel : d.kiProxySelect.1 with
  | none =>
      rw [hsel] at h
      cases h
  | some selected =>
      rw [hsel] at h
      simp only at h
      split at h
      · cases h
      · rename_i k hk
        split_ifs at h with hne
        obtain rfl := Option.some.inj h
        obtain ⟨hlt, hmatch, -⟩ := List.findIdx?_eq_some_iff_getElem.mp hk
        simp only [Bool.and_eq_true, decide_eq_true_eq] at hmatch
        obtain ⟨hslot, hstate⟩ := hmatch
        have hps := kiProxySelect_spec hp hsel
        have hnr : (UInt16.ofNat selected).toNat = selected := by
          have hmax := d.bank.numSlots.toNat_lt
          have hlt := hps.1
          rw [UInt16.toNat_ofNat']
          omega
        refine ⟨hne, _, List.getElem?_eq_getElem hlt, hstate, ?_, ?_⟩
        · rw [hslot]
        · rw [hslot]
          show d.ProxySlot (UInt16.ofNat selected).toNat
          rw [hnr]
          exact hps

/-- **The KI proxy uses the right card and only that one.**  A TPDU that was accepted is transceived
at most once; one for the KI proxy by another worker, which has a card in a slot of the proxy on the
same bank; any other by the worker that has received it. -/
theorem tpduCalls_rightCard (hp : d.PoolIndexed) {i : ℕ} {w : Worker} {src : ClientSlotT}
    {dst : BankSlotT} {data : List UInt8} (ha : tpduAccepted w src dst = true) :
    (d.tpduCalls i w src dst data).length ≤ 1 ∧
      (d.IsForProxy w data → ∀ j ∈ d.tpduCalls i w src dst data,
        j ≠ i ∧ ∃ p, d.workers[j]? = some p ∧ p.state = .connClientMappedCard ∧
          p.slot.bankId = w.slot.bankId ∧ d.ProxySlot p.slot.slotNr.toNat) ∧
      (¬d.IsForProxy w data → d.tpduCalls i w src dst data = [i]) := by
  unfold tpduCalls
  rw [if_pos ha]
  refine ⟨?_, fun hfor j hj => ?_, fun hnot => ?_⟩
  · split_ifs
    · cases d.kiProxyTarget i w data with
      | none => exact Nat.zero_le 1
      | some j => exact Nat.le_refl 1
    · exact Nat.le_refl 1
  · rw [if_pos (kiProxied_iff.mpr hfor), Option.mem_toList] at hj
    exact kiProxyTarget_spec hp hj
  · rw [if_neg fun hki => hnot (kiProxied_iff.mp hki)]

/-- A worker with a card, for a virtual slot. -/
def virtualWorker : Worker :=
  { Worker.fresh with state := .connClientMappedCard, slot := ⟨1, 5⟩ }

/-- The worker, and another one with a card in a slot of the proxy. -/
def twoCards : Bankd where
  bank := ⟨1, 8⟩
  slotNames := []
  kiProxy := ⟨true, 0, [9, 2], 5, 6⟩
  slotmaps := Slotmaps.empty
  workers := [virtualWorker, { virtualWorker with slot := ⟨1, 2⟩ }]
  pending := fun _ => []
  nextSlotIdx := 0
  serial := 0
  revoked := fun _ => none

/-- An authentication for the virtual slot is transceived by the other worker. -/
theorem twoCards_rightCard :
    twoCards.tpduCalls 0 virtualWorker ⟨0, 0⟩ ⟨1, 5⟩ [0xa0, 0x88] = [1] ∧
      ∀ j ∈ twoCards.tpduCalls 0 virtualWorker ⟨0, 0⟩ ⟨1, 5⟩ [0xa0, 0x88], j ≠ 0 := by
  have hp : twoCards.PoolIndexed := fun _ => by decide
  have ha : tpduAccepted virtualWorker ⟨0, 0⟩ ⟨1, 5⟩ = true := by decide
  have hfor : twoCards.IsForProxy virtualWorker [0xa0, 0x88] := kiProxied_iff.mp (by decide)
  refine ⟨by decide, fun j hj => ?_⟩
  exact ((tpduCalls_rightCard hp ha).2.1 hfor j hj).1

/-! ### The process -/

theorem PoolIndexed.nextIdx (h : d.PoolIndexed) (w : Worker) (act : Act) :
    d.kiProxy.proxySlots ≠ [] → d.nextIdx w act < d.kiProxy.proxySlots.length := by
  intro hpool
  unfold Bankd.nextIdx
  split
  · split_ifs
    · obtain ⟨r, hs, heq⟩ := kiProxySelect_pool hpool h
      rw [heq]
      exact hs.lt (h hpool)
    · exact h hpool
  · exact h hpool

/-- In every reachable state of the process the index is in the pool. -/
theorem reach_poolIndexed {re : Regex} {C : Bankd → Label → Prop} (h : (lts re).Reach C d) :
    d.PoolIndexed := by
  refine h.invariant (I := PoolIndexed) ?_ ?_
  · rintro _ ⟨bank, names, ki, rfl⟩ hpool
    exact List.length_pos_of_ne_nil hpool
  · intro d l d' hI _ hst
    rcases next_cases hst with ⟨pdu, rfl, rfl⟩ | ⟨i, sig, w, rfl, _, _, _, rfl⟩ |
      ⟨i, act, w, w', rfl, _, _, rfl⟩
    · exact hI
    · exact hI
    · exact hI.nextIdx w act

/-- The transceive of the process is the call of the driver. -/
theorem tpduTransceive_eq {i : ℕ} {w : Worker} (hw : d.workers[i]? = some w) (src : ClientSlotT)
    (dst : BankSlotT) (data : List UInt8) :
    d.tpduTransceive i w src dst data =
      (d.tpduCalls i w src dst data).head?.bind fun j =>
        d.workers[j]?.map fun p => ⟨w.slot, w.clslot, p.hCard⟩ := by
  unfold tpduTransceive tpduCalls
  by_cases ha : tpduAccepted w src dst = true
  · rw [if_pos ha, if_pos ha]
    by_cases hki : d.kiProxied w data = true
    · rw [if_pos hki, if_pos hki]
      have hne : data ≠ [] := by
        rintro rfl
        exact absurd (kiProxied_iff.mp hki).2.1 (Nat.not_lt_zero 1)
      unfold kiProxyWorker kiProxyTarget
      rw [if_neg hne]
      cases d.kiProxySelect.1 with
      | none => rfl
      | some selected =>
          simp only
          cases d.workers.findIdx? _ with
          | none => rfl
          | some j =>
              simp only
              split_ifs <;> rfl
    · rw [if_neg hki, if_neg hki]
      simp only [List.head?_cons, Option.bind_some, hw, Option.map_some]
  · rw [if_neg ha, if_neg ha]
    rfl

end Bankd

end Remsim
