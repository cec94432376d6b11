import Remsim.Refinement

/-! # POST requests in several threads (`rest_api.c`)

The REST framework runs `api_cb_slotmaps_post()` in a thread of its own for every request.  A
`Post` says before which of its critical sections a thread stands: the two lookups and the
insertion of `slotmap_add()`, the change to `NEW`, and the search for the connection of the bank,
with the linking and the eventfd notification under the lock of the connection lists.  Without
other threads the sections amount to `apiCbSlotmapsPost` (`run_byBank`).

`Posts` runs any number of such threads.  The lookups and the insertion are a check and an act with
the lock released in between, so slots stay unique as long as no thread looks a slot up that
another has found free and not yet inserted (`Alone`). -/

namespace Remsim

/-- The critical section of `api_cb_slotmaps_post()` that a thread comes to next. -/
inductive Post where
  /-- `slotmap_by_bank()` in `slotmap_add()`. -/
  | byBank (bank : BankSlot) (client : ClientSlot)
  /-- `slotmap_by_client()` in `slotmap_add()`. -/
  | byClient (bank : BankSlot) (client : ClientSlot)
  /-- The write lock of `slotmap_add()`. -/
  | insert (bank : BankSlot) (client : ClientSlot)
  /-- `slotmap_state_change(map, SLMAP_S_NEW, NULL)`. -/
  | setNew (m : MapId) (bank : BankSlot)
  /-- The loop over `srv->banks`. -/
  | link (m : MapId) (bank : BankSlot)
  | done (status : ℕ)
deriving DecidableEq, Repr

namespace Post

/-- One critical section. -/
def step (s : Server) : Post → Server × Post
  | .byBank bank client =>
      (s, if (s.slotmapByBank bank).isSome then .done 400 else .byClient bank client)
  | .byClient bank client =>
      (s, if (s.slotmapByClient client).isSome then .done 400 else .insert bank client)
  | .insert bank client => ({ s with toSlotmaps := s.alloc bank client }, .setNew s.next bank)
  | .setNew m bank => (s.slotmapStateChange m .new none, .link m bank)
  | .link m bank =>
      match s.bankdConnById bank.bankId with
      | none => (s, .done 201)
      | some c => ((s.slotmapStateChange m .new (some (c, .mapsNew))).trigger, .done 201)
  | .done status => (s, .done status)

/-- Several sections of one thread in a row. -/
def run : ℕ → Server × Post → Server × Post
  | 0, sp => sp
  | n + 1, sp => run n (step sp.1 sp.2)

/-- The bank slot that the thread has found free and not yet inserted. -/
def bankPending : Post → Option BankSlot
  | .byClient bank _ => some bank
  | .insert bank _ => some bank
  | _ => none

/-- The client slot that the thread has found free and not yet inserted. -/
def clientPending : Post → Option ClientSlot
  | .insert _ client => some client
  | _ => none

/-- The next lookup of `p` is for a slot that `q` has found free and not yet inserted. -/
def Clash (p q : Post) : Prop :=
  match p with
  | .byBank bank _ => q.bankPending = some bank
  | .byClient _ client => q.clientPending = some client
  | _ => False

instance (p q : Post) : Decidable (Clash p q) :=
  match p with
  | .byBank bank _ => inferInstanceAs (Decidable (q.bankPending = some bank))
  | .byClient _ client => inferInstanceAs (Decidable (q.clientPending = some client))
  | .insert _ _ | .setNew _ _ | .link _ _ | .done _ => .isFalse id

end Post

/-- The server and the threads of all requests so far. -/
structure Posts where
  srv : Server
  threads : List Post

namespace Posts

variable (r : Posts)

/-- A request arrives, or a thread passes one critical section. -/
inductive Label where
  | start (bank : BankSlot) (client : ClientSlot)
  | step (t : ℕ)
deriving DecidableEq, Repr

/-- The step looks up no slot that another thread is about to insert. -/
def Alone (r : Posts) : Label → Prop
  | .start _ _ => True
  | .step t => ∀ p ∈ r.threads[t]?, ∀ j < r.threads.length, j ≠ t →
      ∀ q ∈ r.threads[j]?, ¬p.Clash q

instance : ∀ (r : Posts) (l : Label), Decidable (Alone r l)
  | _, .start _ _ => .isTrue trivial
  | r, .step t => inferInstanceAs (Decidable (∀ p ∈ r.threads[t]?,
      ∀ j < r.threads.length, j ≠ t → ∀ q ∈ r.threads[j]?, ¬p.Clash q))

/-- The successor state. -/
def next : Label → Option Posts
  | .start bank client => some { r with threads := r.threads ++ [.byBank bank client] }
  | .step t => (r.threads[t]?).map fun p =>
      ⟨(p.step r.srv).1, r.threads.set t (p.step r.srv).2⟩

/-- Any table in order, and no request yet. -/
def Initial (r : Posts) : Prop := r.srv.toSlotmaps.Wf ∧ r.threads = []

/-- All interleavings of the threads. -/
def lts : Transition.Lts Posts Label := Transition.ofFun Initial next

/-- No two mappings share a bank slot or a client slot. -/
def Unique (r : Posts) : Prop :=
  r.srv.toSlotmaps.UniqueOn SlotMapping.bank ∧ r.srv.toSlotmaps.UniqueOn SlotMapping.client

/-! ### The invariant -/

/-- The table is in order; slots found free are free, and no two threads have found the same. -/
structure Inv (r : Posts) : Prop where
  wf : r.srv.toSlotmaps.Wf
  bankFree : ∀ (t : ℕ) (p : Post) b, r.threads[t]? = some p → p.bankPending = some b →
    r.srv.slotmapByBank b = none
  clientFree : ∀ (t : ℕ) (p : Post) c, r.threads[t]? = some p → p.clientPending = some c →
    r.srv.slotmapByClient c = none
  bankApart : ∀ (t u : ℕ) (p q : Post) b, t ≠ u → r.threads[t]? = some p → r.threads[u]? = some q →
    p.bankPending = some b → q.bankPending ≠ some b
  clientApart : ∀ (t u : ℕ) (p q : Post) c, t ≠ u → r.threads[t]? = some p → r.threads[u]? = some q →
    p.clientPending = some c → q.clientPending ≠ some c

variable {r} {t : ℕ} {p q : Post} {s : Server}

theorem mem_set {u : ℕ} {p' : Post} (h : (r.threads.set t q)[u]? = some p') :
    u = t ∧ p' = q ∨ u ≠ t ∧ r.threads[u]? = some p' := by
  rw [List.getElem?_set] at h
  split_ifs at h with e hlt
  · exact .inl ⟨e.symm, (Option.some.inj h).symm⟩
  · exact .inr ⟨fun e' => e e'.symm, h⟩

/-- The step lemma: one thread moves on. -/
theorem Inv.move (h : r.Inv) (hwf : s.toSlotmaps.Wf)
    (hold : ∀ (u : ℕ) (p' : Post) b, u ≠ t → r.threads[u]? = some p' → p'.bankPending = some b →
      s.slotmapByBank b = none)
    (hold' : ∀ (u : ℕ) (p' : Post) c, u ≠ t → r.threads[u]? = some p' → p'.clientPending = some c →
      s.slotmapByClient c = none)
    (hb : ∀ b, q.bankPending = some b → s.slotmapByBank b = none ∧
      ∀ (u : ℕ) (p' : Post), u ≠ t → r.threads[u]? = some p' → p'.bankPending ≠ some b)
    (hc : ∀ c, q.clientPending = some c → s.slotmapByClient c = none ∧
      ∀ (u : ℕ) (p' : Post), u ≠ t → r.threads[u]? = some p' → p'.clientPending ≠ some c) :
    Inv ⟨s, r.threads.set t q⟩ := by
  refine ⟨hwf, ?_, ?_, ?_, ?_⟩
  · intro u p' b hu hp
    rcases mem_set hu with ⟨rfl, rfl⟩ | ⟨hne, hu⟩
    · exact (hb b hp).1
    · exact hold u p' b hne hu hp
  · intro u p' c hu hp
    rcases mem_set hu with ⟨rfl, rfl⟩ | ⟨hne, hu⟩
    · exact (hc c hp).1
    · exact hold' u p' c hne hu hp
  · intro u v p₁ p₂ b hne hu hv hp hp'
    rcases mem_set hu with ⟨rfl, rfl⟩ | ⟨hu', hu₁⟩ <;>
      rcases mem_set hv with ⟨rfl, rfl⟩ | ⟨hv', hv₁⟩
    · exact hne rfl
    · exact (hb b hp).2 v p₂ hv' hv₁ hp'
    · exact (hb b hp').2 u p₁ hu' hu₁ hp
    · exact h.bankApart u v p₁ p₂ b hne hu₁ hv₁ hp hp'
  · intro u v p₁ p₂ c hne hu hv hp hp'
    rcases mem_set hu with ⟨rfl, rfl⟩ | ⟨hu', hu₁⟩ <;>
      rcases mem_set hv with ⟨rfl, rfl⟩ | ⟨hv', hv₁⟩
    · exact hne rfl
    · exact (hc c hp).2 v p₂ hv' hv₁ hp'
    · exact (hc c hp').2 u p₁ hu' hu₁ hp
    · exact h.clientApart u v p₁ p₂ c hne hu₁ hv₁ hp hp'

theorem table_slotmapStateChange (s : Server) (m : MapId) (st : SlotMappingState)
    (dst : Option (ConnId × BankList)) :
    (s.slotmapStateChange m st dst).toSlotmaps.table = s.toSlotmaps.table := by
  show List.filterMap _ s.mappings = List.filterMap _ s.mappings
  refine List.filterMap_congr fun a _ => ?_
  exact Book.slotsOf_stateChange (b := s.book) m a st dst

/-- A thread that passes a section after which no slot is pending, with the table unchanged. -/
theorem Inv.pass (h : r.Inv) (hwf : s.toSlotmaps.Wf)
    (ht : s.toSlotmaps.table = r.srv.toSlotmaps.table)
    (hb : ∀ b, q.bankPending = some b → s.slotmapByBank b = none ∧
      ∀ (u : ℕ) (p' : Post), u ≠ t → r.threads[u]? = some p' → p'.bankPending ≠ some b)
    (hc : ∀ c, q.clientPending = some c → s.slotmapByClient c = none ∧
      ∀ (u : ℕ) (p' : Post), u ≠ t → r.threads[u]? = some p' → p'.clientPending ≠ some c) :
    Inv ⟨s, r.threads.set t q⟩ := by
  refine h.move hwf ?_ ?_ hb hc
  · intro u p' b _ hu hp
    have := h.bankFree u p' b hu hp
    rw [Slotmaps.slotmapByBank_eq_none] at this ⊢
    rwa [ht]
  · intro u p' c _ hu hp
    have := h.clientFree u p' c hu hp
    rw [Slotmaps.slotmapByClient_eq_none] at this ⊢
    rwa [ht]

theorem Inv.start (h : r.Inv) (bank : BankSlot) (client : ClientSlot) :
    Inv { r with threads := r.threads ++ [.byBank bank client] } := by
  have hold : ∀ {u : ℕ} {p' : Post}, (r.threads ++ [.byBank bank client])[u]? = some p' →
      p'.bankPending ≠ none ∨ p'.clientPending ≠ none → r.threads[u]? = some p' := by
    intro u p' hu hne
    rw [List.getElem?_append] at hu
    split_ifs at hu with hlt
    · exact hu
    · have hp : p' = .byBank bank client := by
        have := List.mem_of_getElem? hu
        exact List.mem_singleton.mp this
      subst hp
      rcases hne with hne | hne <;> exact absurd rfl hne
  have some_ne : ∀ {α : Type} {o : Option α} {a : α}, o = some a → o ≠ none := by
    rintro α o a rfl
    nofun
  refine ⟨h.wf, ?_, ?_, ?_, ?_⟩
  · exact fun u p' b hu hp => h.bankFree u p' b (hold hu (.inl (some_ne hp))) hp
  · exact fun u p' c hu hp => h.clientFree u p' c (hold hu (.inr (some_ne hp))) hp
  · exact fun u v p₁ p₂ b hne hu hv hp hp' => h.bankApart u v p₁ p₂ b hne
      (hold hu (.inl (some_ne hp))) (hold hv (.inl (some_ne hp'))) hp hp'
  · exact fun u v p₁ p₂ c hne hu hv hp hp' => h.clientApart u v p₁ p₂ c hne
      (hold hu (.inr (some_ne hp))) (hold hv (.inr (some_ne hp'))) hp hp'

/-- A thread passes a section without looking up what another is about to insert. -/
theorem Inv.step (h : r.Inv) (ht : r.threads[t]? = some p)
    (hal : ∀ (u : ℕ) p', u ≠ t → r.threads[u]? = some p' → ¬p.Clash p') :
    Inv ⟨(p.step r.srv).1, r.threads.set t (p.step r.srv).2⟩ := by
  have hchange : ∀ m st dst, (r.srv.slotmapStateChange m st dst).toSlotmaps.Wf := fun m st dst =>
    @Book.slotmaps_stateChange_wf r.srv.book m st dst h.wf
  cases p with
  | byBank bank client =>
      simp only [Post.step]
      refine h.pass h.wf rfl ?_ ?_
      · intro b hb
        split_ifs at hb with hs
        · cases hb
        · obtain rfl := Option.some.inj hb
          exact ⟨Option.not_isSome_iff_eq_none.mp hs, fun u p' hne hu => hal u p' hne hu⟩
      · intro c hc
        split_ifs at hc <;> cases hc
  | byClient bank client =>
      simp only [Post.step]
      refine h.pass h.wf rfl ?_ ?_
      · intro b hb
        split_ifs at hb with hs
        · cases hb
        · exact ⟨h.bankFree t _ b ht hb, fun u p' hne hu hp =>
            h.bankApart t u _ p' b (Ne.symm hne) ht hu hb hp⟩
      · intro c hc
        split_ifs at hc with hs
        · cases hc
        · obtain rfl := Option.some.inj hc
          exact ⟨Option.not_isSome_iff_eq_none.mp hs, fun u p' hne hu => hal u p' hne hu⟩
  | insert bank client =>
      have hadd : r.srv.toSlotmaps.slotmapAdd bank client =
          some (r.srv.next, r.srv.alloc bank client) :=
        (r.srv.slotmapAdd_eq_some).mpr
          ⟨h.bankFree t _ bank ht rfl, h.clientFree t _ client ht rfl, rfl⟩
      have htab := h.wf.table_slotmapAdd hadd
      refine h.move (h.wf.slotmapAdd hadd) ?_ ?_ nofun nofun
      · intro u p' b hne hu hp
        have hold := h.bankFree u p' b hu hp
        rw [Slotmaps.slotmapByBank_eq_none] at hold ⊢
        intro e he
        change e ∈ (r.srv.alloc bank client).table at he
        rw [htab, List.mem_append, List.mem_singleton] at he
        rcases he with he | rfl
        · exact hold e he
        · rintro rfl
          exact h.bankApart t u _ p' bank (Ne.symm hne) ht hu rfl hp
      · intro u p' c hne hu hp
        have hold := h.clientFree u p' c hu hp
        rw [Slotmaps.slotmapByClient_eq_none] at hold ⊢
        intro e he
        change e ∈ (r.srv.alloc bank client).table at he
        rw [htab, List.mem_append, List.mem_singleton] at he
        rcases he with he | rfl
        · exact hold e he
        · rintro rfl
          exact h.clientApart t u _ p' client (Ne.symm hne) ht hu rfl hp
  | setNew m bank =>
      exact h.pass (hchange _ _ _) (table_slotmapStateChange _ _ _ _) nofun nofun
  | link m bank =>
      simp only [Post.step]
      cases r.srv.bankdConnById bank.bankId with
      | none => exact h.pass h.wf rfl nofun nofun
      | some c =>
          exact h.pass (hchange m .new (some (c, .mapsNew)))
            (table_slotmapStateChange r.srv m .new (some (c, .mapsNew))) nofun nofun
  | done status => exact h.pass h.wf rfl nofun nofun

theorem reach_inv (h : lts.Reach Alone r) : r.Inv := by
  refine h.invariant ?_ ?_
  · rintro r ⟨hwf, hnil⟩
    have hno : ∀ (u : ℕ) p', r.threads[u]? ≠ some p' := by
      intro u p'
      rw [hnil]
      nofun
    exact ⟨hwf, fun u p' _ hu => absurd hu (hno u p'), fun u p' _ hu => absurd hu (hno u p'),
      fun u _ p' _ _ _ hu => absurd hu (hno u p'), fun u _ p' _ _ _ hu => absurd hu (hno u p')⟩
  · intro r l r' hi hal hst
    change r.next l = some r' at hst
    cases l with
    | start bank client =>
        rw [← Option.some.inj hst]
        exact hi.start bank client
    | step t =>
        obtain ⟨p, hp, rfl⟩ := Option.map_eq_some_iff.mp hst
        refine hi.step hp fun u p' hne hu => ?_
        exact hal p hp u (List.getElem?_eq_some_iff.mp hu).1 hne p' hu

/-- **Concurrent requests keep slots unique as long as no thread looks up a slot that another is
about to insert.** -/
theorem alone_unique (h : lts.Reach Alone r) : r.Unique :=
  ⟨(reach_inv h).wf.bank, (reach_inv h).wf.client⟩

/-- Two requests that share no slot, interleaved section by section. -/
def pairRun : List Label :=
  [.start ⟨1, 0⟩ ⟨5, 0⟩, .start ⟨1, 1⟩ ⟨6, 0⟩, .step 0, .step 1, .step 0, .step 1, .step 0, .step 1]

theorem pair_unique :
    (Transition.after next ⟨Server.initial, []⟩ pairRun).srv.mappings = [0, 1] ∧
      (Transition.after next ⟨Server.initial, []⟩ pairRun).Unique := by
  refine ⟨by decide, alone_unique (Transition.reach_after ⟨Slotmaps.wf_empty, rfl⟩ rfl ?_)⟩
  decide

/-- Two requests for the same bank slot; both look it up before either inserts. -/
def raceRun : List Label :=
  [.start ⟨1, 0⟩ ⟨5, 0⟩, .start ⟨1, 0⟩ ⟨6, 0⟩, .step 0, .step 1, .step 0, .step 1, .step 0, .step 1]

/-- Both are inserted. -/
theorem race_not_unique :
    lts.Reach Transition.Lts.Any (Transition.after next ⟨Server.initial, []⟩ raceRun) ∧
      ¬(Transition.after next ⟨Server.initial, []⟩ raceRun).Unique := by
  refine ⟨Transition.reach_after ⟨Slotmaps.wf_empty, rfl⟩ rfl (by decide), fun h => ?_⟩
  have := h.1 0 (by decide) 1 (by decide) ⟨⟨1, 0⟩, ⟨5, 0⟩, .new⟩ ⟨⟨1, 0⟩, ⟨6, 0⟩, .new⟩ (by decide)
    (by decide) rfl
  cases this

end Posts
end Remsim
