import Remsim.Posts
import Remsim.Net

/-! # A POST request and the main thread (`rest_api.c`, `rspro_server.c`)

A request adds a mapping in one thread while the main thread accepts the mapping's bank, handles an
eventfd notification, or tears the connection of the bank down.  Each of these takes the locks
several times; `Section` is the critical section that the main thread comes to next.  Undisturbed,
the sections amount to the atomic steps of `Server.lts` (`connect_sections`, `eventFd_sections`,
`closed_sections`).

The request changes its mapping to `NEW` twice after the insertion, whatever the main thread has
made of it in between.  A mapping for which a request is on the way is forgotten that way, and is
sent a second time.  And the main thread unlinks the mappings of a lost bank in one section and
takes the connection off the list in the next; a mapping linked in between is left on a list of a
freed connection.  `Race.Undisturbed` excludes both, and then neither happens (`undisturbed_safe`).
-/

namespace Remsim

/-- The critical section of the main thread that comes next. -/
inductive Section where
  | idle
  /-- `clnt_st_established()`: the connection of a bank is moved to `srv->banks`. -/
  | reparent (c : ConnId)
  /-- `clnt_st_connected_bankd_onenter()`. -/
  | onenter (c : ConnId)
  /-- `CLNTC_E_PUSH` after that. -/
  | push (c : ConnId)
  /-- `event_fd_cb()`: the lists of the first of the remaining banks are looked at. -/
  | check (cs : List ConnId)
  /-- `event_fd_cb()`: `CLNTC_E_PUSH` at a bank. -/
  | flush (c : ConnId) (cs : List ConnId)
  /-- `rspro_client_conn_destroy()`: `_unlink_all_slotmaps()`. -/
  | unlink (c : ConnId)
  /-- `rspro_client_conn_destroy()`: off the list of the server, and freed. -/
  | remove (c : ConnId)
deriving DecidableEq, Repr

/-- The server with its peers, a request and the main thread. -/
structure Race where
  net : Net
  post : Post
  main : Section

namespace Race

/-- What can happen: a critical section of the request, something for the main thread to handle,
or the next section of what it is handling. -/
inductive Label where
  | post
  | accept (addr : Option UInt32)
  | connectBank (c : ConnId) (identity : ComponentType) (bankId numberOfSlots : ℤ)
  | answer (c : ConnId) (result : ResultCode)
  | eventFd
  | closed (c : ConnId)
  | kaTimeout (c : ConnId)
  | main
deriving DecidableEq, Repr

variable (r : Race)

/-- The server in another state. -/
def withSrv (s : Server) (main : Section) : Race := ⟨⟨s, r.net.answered⟩, r.post, main⟩

/-- `clnt_st_established()` up to the lookup of the identity. -/
def connectBank (c : ConnId) (identity : ComponentType) (bankId numberOfSlots : ℤ) :
    Option Race :=
  let s := r.net.srv
  if s.accepts c .bankConn then
    if identity ≠ .remsimBankd then some (r.withSrv (s.term c) .idle) else
      let s := s.modConn c fun k =>
        { k with bankId := .ofInt bankId, numSlots := .ofInt numberOfSlots }
      match s.bankdConnById (.ofInt bankId) with
      | none => some (r.withSrv s (.reparent c))
      | some prev =>
          if prev ≠ c then
            (s.reject c prev (.connectBankRes .remsimServer .identityInUse)).toOption.map
              fun s => r.withSrv s .idle
          else some (r.withSrv s (.reparent c))
  else some r

/-- The next section of the main thread. -/
def mainStep : Option Race :=
  let s := r.net.srv
  match r.main with
  | .idle => none
  | .reparent c =>
      let s := s.connListDel c
      let s := { s with banks := s.banks ++ [c] }
      let s := s.clientConnSend c (.connectBankRes .remsimServer .ok) none
      some (r.withSrv (s.setFi c .connectedBankd) (.onenter c))
  | .onenter c => some (r.withSrv (s.clntStConnectedBankdOnenter c) (.push c))
  | .push c => some (r.withSrv (s.dispatchPush c) .idle)
  | .check [] => some (r.withSrv s .idle)
  | .check (c :: cs) =>
      if (s.maps c .mapsNew).isEmpty || (s.maps c .mapsDelreq).isEmpty then
        some (r.withSrv s (.flush c cs))
      else some (r.withSrv s (.check cs))
  | .flush c cs => some (r.withSrv (s.dispatchPush c) (.check cs))
  | .unlink c => some (r.withSrv (s.unlinkAllSlotmaps c) (.remove c))
  | .remove c => some (r.withSrv (s.connFree c) .idle)

/-- The successor state, if the step can happen; the main thread handles one thing at a time. -/
def next : Label → Option Race
  | .post => some ⟨⟨(r.post.step r.net.srv).1, r.net.answered⟩, (r.post.step r.net.srv).2, r.main⟩
  | .main => r.mainStep
  | .accept addr =>
      if r.main = .idle then some (r.withSrv (r.net.srv.acceptCb addr) .idle) else none
  | .connectBank c identity bankId n =>
      if r.main = .idle ∧ r.net.srv.isOpen c then r.connectBank c identity bankId n else none
  | .answer c result =>
      if r.main = .idle then
        (r.net.next (.answer c .create result)).map fun n => { r with net := n }
      else none
  | .eventFd =>
      if r.main = .idle ∧ r.net.srv.eventfd then
        some (r.withSrv { r.net.srv with eventfd := false } (.check r.net.srv.banks))
      else none
  | .closed c =>
      if r.main = .idle ∧ r.net.srv.isOpen c then
        some (r.withSrv (r.net.srv.detach c) (.unlink c))
      else none
  | .kaTimeout c =>
      if r.main = .idle ∧ r.net.srv.isOpen c then some (r.withSrv (r.net.srv.term c) .idle)
      else none

/-- A request begins in some state of the server with its peers. -/
def Initial (r : Race) : Prop :=
  Net.lts.Reach Transition.Lts.Any r.net ∧ r.main = .idle ∧
    ∃ bank client, r.post = .byBank bank client

/-- All interleavings of the request and the main thread. -/
def lts : Transition.Lts Race Label := Transition.ofFun Initial next

/-- The mappings whose create requests are unanswered on a connection. -/
def asked (c : ConnId) : List (Option MapId) := (r.net.unanswered c .create).map Tx.about

/-- At most one create request for a mapping is unanswered on a connection, and no mapping is
linked to a connection that was freed. -/
structure Safe (r : Race) : Prop where
  once : ∀ c m, (r.asked c).count (some m) ≤ 1
  linked : ∀ c l m, m ∈ r.net.srv.maps c l → (r.net.srv.conns c).isSome = true

/-- The request changes its mapping only while no create request for it is on the way, and does not
link it to a connection whose mappings were unlinked. -/
def Undisturbed (r : Race) : Label → Prop
  | .post =>
      match r.post with
      | .setNew m _ => (r.net.srv.heap m).map SlotMapping.state ≠ some .unacknowledged
      | .link m bank => (r.net.srv.heap m).map SlotMapping.state ≠ some .unacknowledged ∧
          ∀ c ∈ r.net.srv.bankdConnById bank.bankId, r.main ≠ .remove c
      | _ => True
  | _ => True

instance (r : Race) : ∀ l, Decidable (r.Undisturbed l)
  | .post => by
      unfold Undisturbed
      cases r.post <;> infer_instance
  | .accept _ | .connectBank _ _ _ _ | .answer _ _ | .eventFd | .closed _ | .kaTimeout _ | .main =>
      .isTrue trivial

/-! ### The sections in a row -/

variable {r} {r' : Race} {s' : Server} {c : ConnId}

theorem step_iff {l : Label} : lts.step r l r' ↔ r.next l = some r' := Iff.rfl

/-- The sections for a `ConnectBankReq` amount to its handling in one step. -/
theorem connect_sections {identity : ComponentType} {bankId n : ℤ} (hi : r.main = .idle)
    (ho : r.net.srv.isOpen c = true)
    (h : r.net.srv.handleRxRspro c (.connectBankReq identity bankId n) = .ok s') :
    lts.Steps Transition.Lts.Any r (r.withSrv s' .idle) := by
  have hfirst : ∀ {t : Race}, r.connectBank c identity bankId n = some t →
      lts.Steps Transition.Lts.Any r t := by
    intro t ht
    refine .single (i := .connectBank c identity bankId n) trivial ?_
    rw [step_iff]
    simp only [next, hi, ho, and_self, if_true]
    exact ht
  have hrest : ∀ t : Server, lts.Steps Transition.Lts.Any (r.withSrv t (.reparent c))
      (r.withSrv (t.acceptBank c) .idle) := fun t =>
    Transition.steps_of_exec (c := fun _ _ => true) (fun _ _ _ => trivial) [.main, .main, .main]
      _ _ rfl rfl
  simp only [Server.handleRxRspro] at h
  split_ifs at h with ha
  · unfold Server.establishedBankConn at h
    split_ifs at h with hid
    · rw [← Except.ok.inj h]
      refine hfirst ?_
      simp only [connectBank, ha, if_true, if_pos hid]
    · simp only at h
      split at h
      · rename_i hl
        rw [← Except.ok.inj h]
        refine (hfirst ?_).trans (hrest _)
        simp only [connectBank, ha, if_true, if_neg hid, hl]
      · rename_i prev hl
        split_ifs at h with hp
        · refine hfirst ?_
          simp only [connectBank, ha, if_true, if_neg hid, hl, if_pos hp, h]
          rfl
        · rw [← Except.ok.inj h]
          refine (hfirst ?_).trans (hrest _)
          simp only [connectBank, ha, if_true, if_neg hid, hl, if_neg hp]
  · rw [← Except.ok.inj h]
    have hr : r.withSrv r.net.srv .idle = r := by
      obtain ⟨⟨s, a⟩, p, m⟩ := r
      cases hi
      rfl
    rw [hr]
    exact .refl r

/-- The sections for an eventfd notification amount to `event_fd_cb()`. -/
theorem eventFd_sections (hi : r.main = .idle) (he : r.net.srv.eventfd = true) :
    lts.Steps Transition.Lts.Any r (r.withSrv r.net.srv.eventFdCb .idle) := by
  have hloop : ∀ (cs : List ConnId) (t : Server), lts.Steps Transition.Lts.Any
      (r.withSrv t (.check cs)) (r.withSrv (cs.foldl Server.fdStep t) .idle) := by
    intro cs
    induction cs with
    | nil => exact fun t => .single (i := .main) trivial rfl
    | cons c cs ih =>
        intro t
        refine Transition.Lts.Steps.trans ?_ (ih (t.fdStep c))
        by_cases hq : ((t.maps c .mapsNew).isEmpty || (t.maps c .mapsDelreq).isEmpty) = true
        · have h₁ : lts.step (r.withSrv t (.check (c :: cs))) .main (r.withSrv t (.flush c cs)) := by
            rw [step_iff]
            simp only [next, mainStep, withSrv, hq, if_true]
          have h₂ : t.fdStep c = t.dispatchPush c := if_pos hq
          rw [h₂]
          exact (Transition.Lts.Steps.single trivial h₁).trans (.single (i := .main) trivial rfl)
        · have h₂ : t.fdStep c = t := if_neg hq
          rw [h₂]
          refine .single (i := .main) trivial ?_
          rw [step_iff]
          simp only [next, mainStep, withSrv, hq]
          rfl
  have heq : r.net.srv.eventFdCb =
      r.net.srv.banks.foldl Server.fdStep { r.net.srv with eventfd := false } := by
    unfold Server.eventFdCb
    rw [if_pos he]
    rfl
  rw [heq]
  refine Transition.Lts.Steps.trans (.single (i := .eventFd) trivial ?_) (hloop _ _)
  rw [step_iff]
  simp only [next, hi, he, and_self, if_true]

/-- The sections for a closed socket amount to its teardown in one step. -/
theorem closed_sections (hg : r.net.srv.Good) (hi : r.main = .idle)
    (ho : r.net.srv.isOpen c = true) :
    lts.Steps Transition.Lts.Any r (r.withSrv (r.net.srv.tcpDown c) .idle) := by
  obtain ⟨k, hk, hf, hp⟩ := hg.open_iff.mp ho
  rw [Server.tcpDown, Server.teardownDepth, Server.sockClosedCb_eq hk hf hp 0]
  have h₁ : lts.step r (.closed c) (r.withSrv (r.net.srv.detach c) (.unlink c)) := by
    rw [step_iff]
    simp only [next, hi, ho, and_self, if_true]
  exact (Transition.Lts.Steps.single trivial h₁).trans
    (Transition.steps_of_exec (c := fun _ _ => true) (fun _ _ _ => trivial) [.main, .main] _ _ rfl
      rfl)

end Race

/-! ### Books between the sections of a step -/

namespace Book

variable {b b' : Book} {c : ConnId} {m : MapId} {bank : BankSlot} {client : ClientSlot}

/-- Mappings may be gone, none is new; no mapping disappears that is not being deleted. -/
structure Shrinks (b b' : Book) : Prop where
  mappings : ∀ m ∈ b'.mappings, m ∈ b.mappings
  slots : ∀ m e, b'.slotsOf m = some e → b.slotsOf m = some e
  kept : ∀ m x, b.heap m = some x → x.state ≠ .deleteReq → x.state ≠ .deleting →
    ∃ x', b'.heap m = some x' ∧ x'.state ≠ .deleteReq ∧ x'.state ≠ .deleting

theorem Shrinks.refl (b : Book) : Shrinks b b :=
  ⟨fun _ h => h, fun _ _ h => h, fun _ x hx h₁ h₂ => ⟨x, hx, h₁, h₂⟩⟩

theorem shrinks_setBank (b : Book) (c : ConnId) (id : Option UInt16) :
    Shrinks b (b.setBank c id) :=
  ⟨fun _ h => h, fun _ _ h => h, fun _ x hx h₁ h₂ => ⟨x, hx, h₁, h₂⟩⟩

theorem Shrinks.trans {b₁ b₂ b₃ : Book} (h : Shrinks b₁ b₂) (h' : Shrinks b₂ b₃) :
    Shrinks b₁ b₃ := by
  refine ⟨fun m hm => h.mappings m (h'.mappings m hm),
    fun m e he => h.slots m e (h'.slots m e he), fun m x hx h₁ h₂ => ?_⟩
  obtain ⟨y, hy, h₁, h₂⟩ := h.kept m x hx h₁ h₂
  exact h'.kept m y hy h₁ h₂

/-- A change of state that starts no deletion, or is about a mapping whose deletion has begun. -/
theorem shrinks_stateChange {st : SlotMappingState} {dst : Option (ConnId × BankList)}
    (h : st ≠ .deleteReq ∧ st ≠ .deleting ∨
      ∀ x, b.heap m = some x → x.state = .deleteReq ∨ x.state = .deleting) :
    Shrinks b (b.stateChange m st dst) := by
  refine ⟨fun _ h => h, fun a e he => by rwa [slotsOf_stateChange] at he, fun a x hx h₁ h₂ => ?_⟩
  by_cases e : a = m
  · subst e
    rcases h with h | h
    · exact ⟨{ x with state := st }, by rw [stateChange_heap_self, hx]; rfl, h⟩
    · rcases h x hx with h | h
      · exact absurd h h₁
      · exact absurd h h₂
  · exact ⟨x, by rw [stateChange_heap_of_ne e, hx], h₁, h₂⟩

theorem shrinks_moveAll {l : BankList} :
    ∀ (ms : List MapId) (b : Book), (∀ m ∈ ms, (l.state ≠ .deleteReq ∧ l.state ≠ .deleting ∨
      ∀ x, b.heap m = some x → x.state = .deleteReq ∨ x.state = .deleting)) → ms.Nodup →
      Shrinks b (b.moveAll c l ms)
  | [], b, _, _ => Shrinks.refl b
  | m :: ms, b, h, hnd => by
      obtain ⟨hm, hnd⟩ := List.nodup_cons.mp hnd
      refine (shrinks_stateChange (h m List.mem_cons_self)).trans
        (shrinks_moveAll ms _ (fun a ha => ?_) hnd)
      have hne : a ≠ m := fun e => hm (e ▸ ha)
      rw [stateChange_heap_of_ne hne]
      exact h a (List.mem_cons_of_mem _ ha)

theorem Neat.shrinks_push (h : b.Neat) (c : ConnId) : Shrinks b (b.push c) := by
  have h₁ : (b.moveAll c .mapsUnack (b.maps c .mapsNew)).Neat :=
    Neat.moveAll _ _ h fun m hm => ⟨.mapsNew, hm⟩
  refine (shrinks_moveAll (l := .mapsUnack) _ _ (fun m _ => .inl (by decide))
    (h.nodup c .mapsNew)).trans
    (shrinks_moveAll _ _ (fun m hm => .inr fun x hx => ?_) (h₁.nodup c .mapsDelreq))
  obtain ⟨y, hy, hst, _⟩ := h₁.linked c .mapsDelreq m hm
  rw [hx] at hy
  rw [Option.some.inj hy]
  exact .inl hst

theorem Neat.linkAll {id : UInt16} : ∀ (ms : List MapId) {b : Book}, b.Neat →
    b.bankOf c = some id → (b.linkAll c ms).Neat ∧ Shrinks b (b.linkAll c ms)
  | [], b, h, _ => ⟨h, Shrinks.refl b⟩
  | m :: ms, b, h, hc => by
      show ((if _ then _ else b).linkAll c ms).Neat ∧ Shrinks b ((if _ then _ else b).linkAll c ms)
      split_ifs with hm
      · rw [hc] at hm
        obtain ⟨x, hx, hid⟩ := Option.map_eq_some_iff.mp hm
        have hn : (b.stateChange m .new (some (c, .mapsNew))).Neat := by
          refine h.stateChange fun c' l e => ?_
          obtain ⟨rfl, rfl⟩ := Prod.mk.inj (Option.some.inj e)
          exact ⟨rfl, x, hx, by rw [hc, hid]⟩
        have hs : Shrinks b (b.stateChange m .new (some (c, .mapsNew))) :=
          shrinks_stateChange (.inl (by decide))
        obtain ⟨h₁, h₂⟩ := Neat.linkAll ms hn hc
        exact ⟨h₁, hs.trans h₂⟩
      · exact Neat.linkAll ms h hc

/-- Linking takes nothing off the lists other than `maps_new` when the mappings of the bank are on
none of them. -/
theorem Neat.linkAll_maps (h : b.Neat) {id : UInt16} (hc : b.bankOf c = some id)
    (hnil : ∀ l, l ≠ .mapsNew → b.maps c l = []) {k : ConnId} {l : BankList} (hl : l ≠ .mapsNew) :
    (b.linkAll c b.mappings).maps k l = b.maps k l := by
  rw [linkAll_eq _ _ hc, moveAll_maps _ _ _ _ (h.wf.nodup.filter _), if_neg, List.append_nil]
  · refine ListLib.filter_not_mem_of_disjoint fun m hm hm' => ?_
    obtain ⟨x, hx, _, hb⟩ := h.linked k l m hm
    obtain ⟨_, y, hy, hid⟩ := mem_ofBank.mp hm'
    rw [hx] at hy
    rw [Option.some.inj hy, hid] at hb
    rw [h.bankUnique k c id hb hc, hnil l hl] at hm
    cases hm
  · intro e
    exact hl (Prod.mk.inj (Option.some.inj e)).2.symm

theorem Neat.shrinks_unlinkAll (h : b.Neat) (c : ConnId) : Shrinks b (b.unlinkAll c) := by
  obtain ⟨hm, _, _, _, hheap⟩ := h.unlinkAll_spec c
  refine ⟨fun m hm' => ?_, fun m e he => ?_, fun m x hx h₁ h₂ => ?_⟩
  · rw [hm] at hm'
    exact List.mem_of_mem_filter hm'
  · unfold slotsOf at he ⊢
    rw [hheap] at he
    split_ifs at he
    · cases he
    · rw [Option.map_map] at he
      exact he
    · exact he
  · have hD : ¬b.Doomed c m := by
      rintro (hd | hd)
      · obtain ⟨y, hy, hst, _⟩ := h.linked c .mapsDelreq m hd
        rw [hx] at hy
        exact h₁ (by rw [Option.some.inj hy]; exact hst)
      · obtain ⟨y, hy, hst, _⟩ := h.linked c .mapsDeleting m hd
        rw [hx] at hy
        exact h₂ (by rw [Option.some.inj hy]; exact hst)
    rw [hheap, if_neg hD, hx]
    split_ifs
    · exact ⟨_, rfl, nofun, nofun⟩
    · exact ⟨x, rfl, h₁, h₂⟩

end Book

namespace Race

/-! ### The invariant -/

/-- What the main thread relies on between two sections. -/
def MainInv (s : Server) : Section → Prop
  | .reparent c => s.fi c = some .established ∧
      ∃ id, (s.conns c).map Conn.bankId = some id ∧ ∀ k, s.book.bankOf k ≠ some id
  | .onenter c => s.book.bankOf c ≠ none ∧ ∀ l, l ≠ .mapsNew → s.maps c l = []
  | .remove c => ∀ l, s.maps c l = []
  | _ => True

/-- The mapping is allocated for a bank slot and is not being deleted. -/
def Held (b : Book) (m : MapId) (bank : BankSlot) : Prop :=
  ∃ x, b.heap m = some x ∧ x.bank = bank ∧ x.state ≠ .deleteReq ∧ x.state ≠ .deleting

/-- What the request relies on between two sections. -/
def PostInv (b : Book) : Post → Prop
  | .byClient bank _ => b.slotmapByBank bank = none
  | .insert bank client => b.slotmapByBank bank = none ∧ b.slotmapByClient client = none
  | .setNew m bank => Held b m bank
  | .link m bank => Held b m bank
  | _ => True

/-- The connection lists, as far as banks are concerned. -/
structure Rolls (s : Server) : Prop where
  fresh : ∀ c k, s.conns c = some k → c < s.nextConn
  present : ∀ c ∈ s.banks, (s.conns c).isSome = true
  waiting : ∀ c, s.fi c = some .established → c ∉ s.banks
  live : ∀ c, s.book.bankOf c ≠ none → s.isOpen c = true → s.fi c = some .connectedBankd

/-- The create requests on the way to a bank are those of `maps_unack`. -/
structure Inv (r : Race) : Prop where
  neat : r.net.srv.book.Neat
  rolls : Rolls r.net.srv
  bound : ∀ c, r.net.answered c .create ≤ (r.net.requests c .create).length
  synced : ∀ c, r.net.srv.book.bankOf c ≠ none → r.main ≠ .remove c →
    r.asked c = (r.net.srv.maps c .mapsUnack).map some
  unasked : ∀ c, r.net.srv.book.bankOf c = none →
    (r.net.srv.conns c).isSome = true ∨ r.net.srv.nextConn ≤ c → r.net.requests c .create = []
  once : ∀ c, (r.asked c).Nodup
  main : MainInv r.net.srv r.main
  post : PostInv r.net.srv.book r.post

variable {r : Race} {s' : Server} {c k : ConnId} {p : Post} {main' : Section}

theorem bankOf_congr {s : Server}
    (hc : ∀ k, (s'.conns k).map Conn.bankId = (s.conns k).map Conn.bankId)
    (hb : s'.banks = s.banks) : s'.book.bankOf = s.book.bankOf := by
  funext k
  show (if k ∈ s'.banks then _ else none) = if k ∈ s.banks then _ else none
  rw [hb, hc]

theorem Rolls.of_sim {s : Server} (h : Rolls s) (hr : Roster.Sim s.roster s'.roster) :
    Rolls s' := by
  have hb : s'.banks = s.banks := congrFun hr.members .bank
  have hn : s'.nextConn = s.nextConn := hr.nextConn
  have hmap : ∀ {γ : Type} (f : Conn → γ), (∀ q, f q.core = f q) → ∀ k,
      (s'.conns k).map f = (s.conns k).map f := by
    intro γ f hf k
    have := congrArg (Option.map f) (hr.conns k)
    rw [Option.map_map, Option.map_map] at this
    rwa [show f ∘ Conn.core = f from funext hf] at this
  have hsome : ∀ k, (s'.conns k).isSome = (s.conns k).isSome := by
    intro k
    rw [← Option.isSome_map (f := Conn.fi), hmap Conn.fi (fun _ => rfl), Option.isSome_map]
  have hfi : ∀ k, s'.fi k = s.fi k := by
    intro k
    have := congrArg (fun o => o.bind Conn.fi) (hr.conns k)
    simp only [Option.bind_map] at this
    exact this
  have hopen : ∀ k, s'.isOpen k = s.isOpen k := by
    intro k
    have := congrArg (fun o => (o.bind Conn.peer).isSome) (hr.conns k)
    simp only [Option.bind_map] at this
    exact this
  refine ⟨fun c k hk => ?_, fun c hc => ?_, fun c hf => ?_, fun c hbank ho => ?_⟩
  · obtain ⟨q, hq, _⟩ := hr.conn hk
    rw [hn]
    exact h.fresh c q hq
  · rw [hsome]
    exact h.present c (hb ▸ hc)
  · rw [hb]
    exact h.waiting c (hfi c ▸ hf)
  · rw [bankOf_congr (hmap Conn.bankId fun _ => rfl) hb] at hbank
    rw [hopen] at ho
    rw [hfi]
    exact h.live c hbank ho

theorem Rolls.not_mem {s : Server} (h : Rolls s) : s.book.bankOf c = none ↔ c ∉ s.banks := by
  show (if c ∈ s.banks then (s.conns c).map Conn.bankId else none) = none ↔ _
  split_ifs with hc
  · obtain ⟨k, hk⟩ := Option.isSome_iff_exists.mp (h.present c hc)
    simp [hc, hk]
  · simp [hc]

theorem Inv.safe (h : r.Inv) : Safe r := by
  refine ⟨fun c m => List.nodup_iff_count_le_one.mp (h.once c) _, fun c l m hm => ?_⟩
  obtain ⟨x, _, _, hb⟩ := h.neat.linked c l m hm
  obtain ⟨_, k, hk, _⟩ := Server.bankOf_eq_some.mp hb
  rw [hk]
  rfl

theorem PostInv.shrinks {b b' : Book} {p : Post} (h : PostInv b p) (hs : Book.Shrinks b b') :
    PostInv b' p := by
  have htable : ∀ e ∈ b'.table, e ∈ b.table := by
    intro e he
    obtain ⟨m, hm, x, hx, rfl⟩ := Slotmaps.mem_table.mp he
    have hslots : b'.slotsOf m = some x.slots := by rw [Book.slotsOf, hx]; rfl
    obtain ⟨y, hy, hxy⟩ := Option.map_eq_some_iff.mp (hs.slots m _ hslots)
    exact Slotmaps.mem_table.mpr ⟨m, hs.mappings m hm, y, hy, hxy⟩
  have hbank : ∀ {bank}, b.slotmapByBank bank = none → b'.slotmapByBank bank = none := by
    intro bank hb
    rw [Slotmaps.slotmapByBank_eq_none] at hb ⊢
    exact fun e he => hb e (htable e he)
  have hclient : ∀ {client}, b.slotmapByClient client = none →
      b'.slotmapByClient client = none := by
    intro client hc
    rw [Slotmaps.slotmapByClient_eq_none] at hc ⊢
    exact fun e he => hc e (htable e he)
  have hheld : ∀ {m bank}, Held b m bank → Held b' m bank := by
    rintro m bank ⟨x, hx, hb, h₁, h₂⟩
    obtain ⟨y, hy, h₁, h₂⟩ := hs.kept m x hx h₁ h₂
    have hslots : b'.slotsOf m = some y.slots := by rw [Book.slotsOf, hy]; rfl
    obtain ⟨z, hz, hyz⟩ := Option.map_eq_some_iff.mp (hs.slots m _ hslots)
    rw [hx] at hz
    rw [← Option.some.inj hz] at hyz
    exact ⟨y, hy, (congrArg Prod.fst hyz).symm.trans hb, h₁, h₂⟩
  cases p with
  | byBank bank client => trivial
  | byClient bank client => exact hbank h
  | insert bank client => exact ⟨hbank h.1, hclient h.2⟩
  | setNew m bank => exact hheld h
  | link m bank => exact hheld h
  | done status => trivial

theorem Inv.step_of (h : r.Inv) (hneat : s'.book.Neat) (hrolls : Rolls s')
    (hreq : ∀ c, (s'.sent c).filter (Tx.isKind .create) =
      (r.net.srv.sent c).filter (Tx.isKind .create))
    (hsync : ∀ c, s'.book.bankOf c ≠ none → main' ≠ .remove c →
      r.asked c = (s'.maps c .mapsUnack).map some)
    (hun : ∀ c, s'.book.bankOf c = none → (s'.conns c).isSome = true ∨ s'.nextConn ≤ c →
      r.net.srv.book.bankOf c = none ∧
        ((r.net.srv.conns c).isSome = true ∨ r.net.srv.nextConn ≤ c))
    (hmain : MainInv s' main') (hpost : PostInv s'.book p) :
    Inv ⟨⟨s', r.net.answered⟩, p, main'⟩ := by
  have hask : ∀ c, asked ⟨⟨s', r.net.answered⟩, p, main'⟩ c = r.asked c := by
    intro c
    unfold asked Net.unanswered Net.requests
    rw [hreq]
  refine ⟨hneat, hrolls, fun c => ?_, fun c hc hm => (hask c).trans (hsync c hc hm),
    fun c hc hs => ?_,
    fun c => ?_, hmain, hpost⟩
  · show r.net.answered c .create ≤ ((s'.sent c).filter _).length
    rw [hreq]
    exact h.bound c
  · show (s'.sent c).filter _ = []
    rw [hreq]
    obtain ⟨h₁, h₂⟩ := hun c hc hs
    exact h.unasked c h₁ h₂
  · rw [hask]
    exact h.once c

/-! ### Sections of the request -/

theorem MainInv.stateChange {s : Server} {main : Section} (h : MainInv s main) {m : MapId}
    {st : SlotMappingState} {dst : Option (ConnId × BankList)}
    (hd : ∀ c l, dst = some (c, l) → l = .mapsNew ∧ main ≠ .remove c) :
    MainInv (s.slotmapStateChange m st dst) main := by
  have hnil : ∀ c l, s.maps c l = [] → dst ≠ some (c, l) →
      (s.slotmapStateChange m st dst).maps c l = [] := by
    intro c l hn he
    show (s.maps c l).filter _ ++ (if dst = some (c, l) then [m] else []) = []
    rw [hn, if_neg he]
    rfl
  cases main with
  | reparent c => exact h
  | onenter c => exact ⟨h.1, fun l hl => hnil c l (h.2 l hl) fun e => hl (hd c l e).1⟩
  | remove c => exact fun l => hnil c l (h l) fun e => (hd c l e).2 rfl
  | _ => trivial

theorem Inv.stateChange (h : r.Inv) {m : MapId} {dst : Option (ConnId × BankList)}
    (hst : (r.net.srv.heap m).map SlotMapping.state ≠ some .unacknowledged)
    (hd : ∀ c l, dst = some (c, l) → l = .mapsNew ∧ r.main ≠ .remove c ∧
      ∃ x, r.net.srv.heap m = some x ∧ r.net.srv.book.bankOf c = some x.bank.bankId)
    (hpost : PostInv (r.net.srv.book.stateChange m .new dst) p') :
    Inv ⟨⟨r.net.srv.slotmapStateChange m .new dst, r.net.answered⟩, p', r.main⟩ := by
  have hunack : ∀ c, (r.net.srv.slotmapStateChange m .new dst).maps c .mapsUnack =
      r.net.srv.maps c .mapsUnack := by
    intro c
    have hne : dst ≠ some (c, .mapsUnack) := fun e => nomatch (hd c _ e).1
    show (r.net.srv.maps c .mapsUnack).filter _ ++ (if dst = some (c, .mapsUnack) then [m] else []) = _
    rw [if_neg hne, List.append_nil]
    refine ListLib.filter_ne_of_not_mem fun hm => hst ?_
    obtain ⟨x, hx, hs, _⟩ := h.neat.linked c .mapsUnack m hm
    have hx' : r.net.srv.heap m = some x := hx
    rw [hx', Option.map_some, hs]
    rfl
  have hneat : (r.net.srv.book.stateChange m .new dst).Neat := by
    refine h.neat.stateChange fun c l e => ?_
    obtain ⟨rfl, _, hx⟩ := hd c l e
    exact ⟨rfl, hx⟩
  refine h.step_of hneat (h.rolls.of_sim (Roster.Sim.refl _)) (fun _ => rfl)
    (fun c hc hm => ?_) (fun _ hc hs => ⟨hc, hs⟩)
    (h.main.stateChange fun c l e => ⟨(hd c l e).1, (hd c l e).2.1⟩) hpost
  rw [hunack]
  exact h.synced c hc hm

theorem Inv.trigger {s : Server} {a : ConnId → ReqKind → ℕ} {p : Post} {main : Section}
    (h : Inv ⟨⟨s, a⟩, p, main⟩) : Inv ⟨⟨s.trigger, a⟩, p, main⟩ := by
  refine ⟨h.neat, h.rolls.of_sim (Roster.Sim.refl _), h.bound, h.synced, h.unasked,
    h.once, ?_, h.post⟩
  have := h.main
  cases main <;> exact this

theorem Inv.insert (h : r.Inv) {bank : BankSlot} {client : ClientSlot}
    (hp : r.post = .insert bank client) :
    Inv ⟨⟨{ r.net.srv with toSlotmaps := r.net.srv.alloc bank client }, r.net.answered⟩,
      .setNew r.net.srv.next bank, r.main⟩ := by
  have hfree := h.post
  rw [hp] at hfree
  refine h.step_of (h.neat.alloc hfree.1 hfree.2)
    (h.rolls.of_sim (Roster.Sim.refl _)) (fun _ => rfl) h.synced
    (fun _ hc hs => ⟨hc, hs⟩) ?_ ?_
  · have := h.main
    cases hm : r.main <;> rw [hm] at this <;> exact this
  · exact ⟨⟨bank, client, .new⟩, Slotmaps.alloc_heap_next bank client, rfl, nofun, nofun⟩

/-- The step lemma for the request. -/
theorem Inv.post_step (h : r.Inv) (hu : r.Undisturbed .post) :
    Inv ⟨⟨(r.post.step r.net.srv).1, r.net.answered⟩, (r.post.step r.net.srv).2, r.main⟩ := by
  have hsame : ∀ p', PostInv r.net.srv.book p' → Inv ⟨⟨r.net.srv, r.net.answered⟩, p', r.main⟩ :=
    fun p' hp => h.step_of h.neat h.rolls (fun _ => rfl) h.synced (fun _ hc hs => ⟨hc, hs⟩) h.main hp
  have hpost := h.post
  unfold Undisturbed at hu
  cases hp : r.post with
  | byBank bank client =>
      simp only [Post.step]
      refine hsame _ ?_
      split_ifs with hs
      · trivial
      · exact Option.not_isSome_iff_eq_none.mp hs
  | byClient bank client =>
      simp only [Post.step]
      refine hsame _ ?_
      rw [hp] at hpost
      split_ifs with hs
      · trivial
      · exact ⟨hpost, Option.not_isSome_iff_eq_none.mp hs⟩
  | insert bank client => exact h.insert hp
  | setNew m bank =>
      rw [hp] at hpost
      simp only [hp] at hu
      obtain ⟨x, hx, hb, _⟩ := hpost
      have hnone : ∀ c l, (none : Option (ConnId × BankList)) ≠ some (c, l) :=
        fun _ _ => Option.some_ne_none _ ∘ Eq.symm
      have hnew : SlotMappingState.new ≠ .deleteReq ∧ SlotMappingState.new ≠ .deleting := by decide
      refine h.stateChange hu (fun c l e => absurd e (hnone c l))
        ⟨{ x with state := .new }, ?_, hb, hnew.1, hnew.2⟩
      rw [Book.stateChange_heap_self, hx]
      rfl
  | link m bank =>
      rw [hp] at hpost
      simp only [hp] at hu
      obtain ⟨x, hx, hb, _⟩ := hpost
      simp only [Post.step]
      cases hc : r.net.srv.bankdConnById bank.bankId with
      | none => exact hsame _ trivial
      | some c =>
          refine Inv.trigger (h.stateChange hu.1 (fun c' l e => ?_) trivial)
          obtain ⟨rfl, rfl⟩ := Prod.mk.inj (Option.some.inj e)
          exact ⟨rfl, hu.2 c hc, x, hx, by rw [Server.bankOf_of_lookup hc, hb]⟩
  | done status => exact hsame _ trivial

/-! ### Sections of the main thread -/

theorem Inv.aside (h : r.Inv) (hidle : ∀ k, r.main ≠ .remove k) (hbook : s'.book = r.net.srv.book)
    (hrolls : Rolls s')
    (hreq : ∀ c, (s'.sent c).filter (Tx.isKind .create) =
      (r.net.srv.sent c).filter (Tx.isKind .create))
    (hconns : ∀ c, (s'.conns c).isSome = true ∨ s'.nextConn ≤ c →
      (r.net.srv.conns c).isSome = true ∨ r.net.srv.nextConn ≤ c)
    (hmain : MainInv s' main') : Inv (r.withSrv s' main') := by
  have hmaps : s'.maps = r.net.srv.maps := congrArg (fun b : Book => b.maps) hbook
  refine h.step_of (hbook ▸ h.neat) hrolls hreq (fun c hc _ => ?_) (fun c hc hs => ?_) hmain
    (hbook ▸ h.post)
  · rw [hmaps]
    exact h.synced c (hbook ▸ hc) (hidle c)
  · exact ⟨hbook ▸ hc, hconns c hs⟩

theorem isSome_modConn {s : Server} (f : Conn → Conn) (k : ConnId) :
    ((s.modConn c f).conns k).isSome = (s.conns k).isSome := by
  by_cases e : k = c
  · subst e
    rw [Server.modConn_conns_self, Option.isSome_map]
  · rw [Server.modConn_conns_of_ne e]

theorem Rolls.modConn {s : Server} (h : Rolls s) {f : Conn → Conn}
    (hbank : (s.modConn c f).book = s.book)
    (hest : (s.modConn c f).fi c = some .established → s.fi c = some .established)
    (hlive : (s.modConn c f).isOpen c = true → s.book.bankOf c ≠ none →
      (s.modConn c f).fi c = some .connectedBankd) : Rolls (s.modConn c f) := by
  have hother : ∀ {k}, k ≠ c → (s.modConn c f).conns k = s.conns k :=
    fun e => Server.modConn_conns_of_ne e f
  refine ⟨fun k q hq => ?_, fun k hk => (isSome_modConn f k).trans (h.present k hk), fun k hf => ?_,
    fun k hb ho => ?_⟩
  · have hs : ((s.modConn c f).conns k).isSome = true := by rw [hq]; rfl
    rw [isSome_modConn] at hs
    obtain ⟨q', hq'⟩ := Option.isSome_iff_exists.mp hs
    exact h.fresh k q' hq'
  · by_cases e : k = c
    · subst e
      exact h.waiting k (hest hf)
    · unfold Server.fi at hf
      rw [hother e] at hf
      exact h.waiting k hf
  · rw [hbank] at hb
    by_cases e : k = c
    · subst e
      exact hlive ho hb
    · unfold Server.isOpen at ho
      unfold Server.fi
      rw [hother e] at ho ⊢
      exact h.live k hb ho

theorem Inv.detach (h : r.Inv) (hidle : r.main = .idle)
    (hmain : MainInv (r.net.srv.detach c) main') :
    Inv (r.withSrv (r.net.srv.detach c) main') := by
  refine h.aside (by simp [hidle]) (Server.book_detach _ c)
    (h.rolls.modConn (Server.book_detach _ c) (fun hf => ?_) fun ho _ => ?_) (fun _ => rfl)
    (fun k hk => by rwa [Server.detach, isSome_modConn] at hk) hmain
  · change (r.net.srv.detach c).fi c = _ at hf
    rw [Server.fi_detach_self] at hf
    cases hf
  · unfold Server.isOpen at ho
    rw [Server.modConn_conns_self] at ho
    cases hk : r.net.srv.conns c <;> rw [hk] at ho <;> cases ho

theorem term_eq_detach {s : Server} (ho : s.isOpen c = true) : s.term c = s.detach c := by
  unfold Server.isOpen at ho
  cases hk : s.conns c with
  | none =>
      rw [hk] at ho
      cases ho
  | some k =>
      rw [hk] at ho
      exact Server.fsmInstTerm_eq hk ho 0

theorem Rolls.next_none {s : Server} (h : Rolls s) : s.conns s.nextConn = none := by
  cases hk : s.conns s.nextConn with
  | none => rfl
  | some k => exact absurd (h.fresh _ k hk) (Nat.lt_irrefl _)

theorem Rolls.next_not_mem {s : Server} (h : Rolls s) : s.nextConn ∉ s.banks := by
  intro hc
  have := h.present _ hc
  rw [h.next_none] at this
  cases this

theorem Inv.accept (h : r.Inv) (hidle : r.main = .idle) (addr : Option UInt32) :
    Inv (r.withSrv (r.net.srv.acceptCb addr) .idle) := by
  have hnot := h.rolls.next_not_mem
  have hconns : ∀ {k}, k ≠ r.net.srv.nextConn →
      (r.net.srv.acceptCb addr).conns k = r.net.srv.conns k := fun e => Function.update_of_ne e _ _
  have hmaps : (r.net.srv.acceptCb addr).maps = r.net.srv.maps := by
    show Function.update r.net.srv.maps r.net.srv.nextConn (fun _ => []) = r.net.srv.maps
    have : r.net.srv.maps r.net.srv.nextConn = fun _ => [] :=
      funext fun l => h.neat.maps_eq_nil (h.rolls.not_mem.mpr hnot) l
    rw [← this, Function.update_eq_self]
  have hbank : (r.net.srv.acceptCb addr).book.bankOf = r.net.srv.book.bankOf := by
    funext k
    show (if k ∈ r.net.srv.banks then _ else none) = if k ∈ r.net.srv.banks then _ else none
    split_ifs with hk
    · rw [hconns fun e => hnot (e ▸ hk)]
    · rfl
  have hbook : (r.net.srv.acceptCb addr).book = r.net.srv.book := by
    show Book.mk r.net.srv.toSlotmaps (r.net.srv.acceptCb addr).maps
      (r.net.srv.acceptCb addr).book.bankOf = _
    rw [hmaps, hbank]
    rfl
  refine h.aside (by simp [hidle]) hbook
    ⟨fun k q hq => ?_, fun k hk => ?_, fun k hf => ?_, fun k hb ho => ?_⟩
    (fun _ => rfl) (fun k hk => ?_) trivial
  · show k < r.net.srv.nextConn + 1
    by_cases e : k = r.net.srv.nextConn
    · rw [e]
      exact Nat.lt_succ_self _
    · rw [hconns e] at hq
      exact Nat.lt_succ_of_lt (h.rolls.fresh k q hq)
  · rw [hconns fun e => hnot (e ▸ hk)]
    exact h.rolls.present k hk
  · by_cases e : k = r.net.srv.nextConn
    · rw [e]
      exact hnot
    · unfold Server.fi at hf
      rw [hconns e] at hf
      exact h.rolls.waiting k hf
  · rw [hbank] at hb
    have e : k ≠ r.net.srv.nextConn := by
      rintro rfl
      exact hb (h.rolls.not_mem.mpr hnot)
    unfold Server.isOpen at ho
    unfold Server.fi
    rw [hconns e] at ho ⊢
    exact h.rolls.live k hb ho
  · by_cases e : k = r.net.srv.nextConn
    · exact .inr (Nat.le_of_eq e.symm)
    · rw [hconns e] at hk
      exact hk.imp_right fun hle => Nat.le_of_succ_le hle

theorem filter_send {s : Server} {pdu : RsproPDU} {about : Option MapId} (k : ConnId)
    (hp : Tx.isKind .create ⟨pdu, about⟩ = false) :
    ((s.clientConnSend c pdu about).sent k).filter (Tx.isKind .create) =
      (s.sent k).filter (Tx.isKind .create) := by
  show (Function.update s.sent c (s.sent c ++ [_]) k).filter _ = _
  by_cases e : k = c
  · subst e
    rw [Function.update_self, List.filter_append, List.filter_cons_of_neg (by rw [hp]; decide)]
    exact List.append_nil _
  · rw [Function.update_of_ne e]

theorem Inv.touch (h : r.Inv) (hidle : r.main = .idle) (hc : c ∉ r.net.srv.banks)
    (hslot : s'.toSlotmaps = r.net.srv.toSlotmaps) (hmaps : s'.maps = r.net.srv.maps)
    (hbanks : s'.banks = r.net.srv.banks) (hnext : s'.nextConn = r.net.srv.nextConn)
    (hconns : ∀ k, k ≠ c → s'.conns k = r.net.srv.conns k)
    (hsome : (s'.conns c).isSome = (r.net.srv.conns c).isSome)
    (hreq : ∀ c, (s'.sent c).filter (Tx.isKind .create) =
      (r.net.srv.sent c).filter (Tx.isKind .create))
    (hmain : s'.book = r.net.srv.book → MainInv s' main') : Inv (r.withSrv s' main') := by
  have hbank : s'.book.bankOf = r.net.srv.book.bankOf := by
    funext k
    show (if k ∈ s'.banks then _ else none) = if k ∈ r.net.srv.banks then _ else none
    rw [hbanks]
    split_ifs with hk
    · rw [hconns k fun e => hc (e ▸ hk)]
    · rfl
  have hbook : s'.book = r.net.srv.book := by
    show Book.mk s'.toSlotmaps s'.maps s'.book.bankOf = _
    rw [hslot, hmaps, hbank]
    rfl
  have hall : ∀ k, (s'.conns k).isSome = (r.net.srv.conns k).isSome := by
    intro k
    by_cases e : k = c
    · rw [e, hsome]
    · rw [hconns k e]
  refine h.aside (by simp [hidle]) hbook
    ⟨fun k q hq => ?_, fun k hk => ?_, fun k hf => ?_, fun k hb ho => ?_⟩ hreq
    (fun k hk => by rwa [hall, hnext] at hk) (hmain hbook)
  · have hs : (s'.conns k).isSome = true := by rw [hq]; rfl
    rw [hall] at hs
    obtain ⟨q', hq'⟩ := Option.isSome_iff_exists.mp hs
    rw [hnext]
    exact h.rolls.fresh k q' hq'
  · rw [hall]
    exact h.rolls.present k (hbanks ▸ hk)
  · rw [hbanks]
    by_cases e : k = c
    · rw [e]
      exact hc
    · unfold Server.fi at hf
      rw [hconns k e] at hf
      exact h.rolls.waiting k hf
  · rw [hbank] at hb
    have e : k ≠ c := by
      rintro rfl
      exact hb (h.rolls.not_mem.mpr hc)
    unfold Server.isOpen at ho
    unfold Server.fi
    rw [hconns k e] at ho ⊢
    exact h.rolls.live k hb ho

theorem Inv.connectBank (h : r.Inv) (hidle : r.main = .idle) (ho : r.net.srv.isOpen c = true)
    {identity : ComponentType} {bankId n : ℤ} {r' : Race}
    (hr : r.connectBank c identity bankId n = some r') : r'.Inv := by
  unfold Race.connectBank at hr
  simp only at hr
  by_cases ha : r.net.srv.accepts c .bankConn = true
  · rw [if_pos ha] at hr
    have hfi := (Server.accepts_established (.inr rfl)).mp ha
    have hnb := h.rolls.waiting c hfi
    split_ifs at hr with hid
    · obtain rfl := Option.some.inj hr
      rw [term_eq_detach ho]
      exact h.detach hidle trivial
    · generalize ht : (r.net.srv.modConn c fun k =>
        { k with bankId := .ofInt bankId, numSlots := .ofInt n }) = t at hr
      have hbanks : t.banks = r.net.srv.banks := by rw [← ht]; rfl
      cases hl : t.bankdConnById (.ofInt bankId) with
      | none =>
          simp only [hl] at hr
          obtain rfl := Option.some.inj hr
          subst ht
          refine h.touch hidle hnb rfl rfl rfl rfl
            (fun k e => Server.modConn_conns_of_ne e _) (isSome_modConn _ c) (fun _ => rfl)
            fun _ => ⟨?_, .ofInt bankId, ?_, fun k hk => ?_⟩
          · obtain ⟨q, hq, hf⟩ := Server.fi_eq_some.mp hfi
            unfold Server.fi
            rw [Server.modConn_conns_self, hq]
            exact hf
          · obtain ⟨q, hq, _⟩ := Server.fi_eq_some.mp hfi
            rw [Server.modConn_conns_self, hq]
            rfl
          · obtain ⟨hk, q, hq, hid⟩ := Server.bankOf_eq_some.mp hk
            have := List.find?_eq_none.mp hl k hk
            rw [hq] at this
            exact this (by simpa using hid)
      | some prev =>
          have hprev : prev ≠ c := by
            rintro rfl
            exact hnb (hbanks ▸ List.mem_of_find?_eq_some hl)
          simp only [hl, ne_eq, hprev, not_false_eq_true, if_true] at hr
          unfold Server.reject at hr
          split at hr
          · cases hr
          · obtain rfl := Option.some.inj hr
            subst ht
            refine h.touch hidle hnb rfl rfl rfl rfl (fun k e => ?_) ?_ (fun k => ?_)
              fun _ => trivial
            · exact (Server.modConn_conns_of_ne e _).trans (Server.modConn_conns_of_ne e _)
            · exact (isSome_modConn _ c).trans (isSome_modConn _ c)
            · exact filter_send k rfl
  · rw [if_neg ha] at hr
    exact Option.some.inj hr ▸ h

theorem asked_nil (h : r.net.requests c .create = []) : r.asked c = [] := by
  unfold asked Net.unanswered
  rw [h, List.drop_nil]
  rfl

theorem Rolls.reparent {s : Server} (h : Rolls s) {id : UInt16}
    (hid : (s.conns c).map Conn.bankId = some id) : Rolls (s.reparented c) := by
  have hsome : (s.conns c).isSome = true := by
    rw [← Option.isSome_map, hid]
    rfl
  refine ⟨fun k q hq => ?_, fun k hk => ?_, fun k hf => ?_, fun k hb ho => ?_⟩
  · have hs : ((s.reparented c).conns k).isSome = true := by rw [hq]; rfl
    rw [Server.isSome_reparented] at hs
    obtain ⟨q', hq'⟩ := Option.isSome_iff_exists.mp hs
    exact h.fresh k q' hq'
  · rw [Server.isSome_reparented]
    rcases List.mem_append.mp hk with hk | hk
    · exact h.present k (List.mem_of_mem_filter hk)
    · rw [List.mem_singleton.mp hk]
      exact hsome
  · have e : k ≠ c := by
      rintro rfl
      rw [Server.fi_reparented_self hsome] at hf
      cases hf
    rw [Server.fi_reparented_of_ne e] at hf
    intro hk
    rcases List.mem_append.mp hk with hk | hk
    · exact h.waiting k hf (List.mem_of_mem_filter hk)
    · exact e (List.mem_singleton.mp hk)
  · by_cases e : k = c
    · rw [e]
      exact Server.fi_reparented_self hsome
    · rw [Server.book_reparented hid] at hb
      unfold Server.isOpen at ho
      rw [Server.reparented_conns_of_ne e] at ho
      rw [Server.fi_reparented_of_ne e]
      exact h.live k (fun hn => hb ((Function.update_of_ne e _ _).trans hn)) ho

theorem Inv.reparent (h : r.Inv) (hm : r.main = .reparent c) :
    Inv (r.withSrv (r.net.srv.reparented c) (.onenter c)) := by
  have hmain := h.main
  rw [hm] at hmain
  obtain ⟨hfi, id, hid, hfree⟩ := hmain
  have hnone : r.net.srv.book.bankOf c = none := h.rolls.not_mem.mpr (h.rolls.waiting c hfi)
  have hnil := h.neat.maps_eq_nil hnone
  have hbook := Server.book_reparented hid
  have hsome : (r.net.srv.conns c).isSome = true := by
    rw [← Option.isSome_map, hid]
    rfl
  have hbank : ∀ {k}, k ≠ c →
      (r.net.srv.reparented c).book.bankOf k = r.net.srv.book.bankOf k := by
    intro k e
    rw [hbook]
    exact Function.update_of_ne e _ _
  have hself : (r.net.srv.reparented c).book.bankOf c = some id := by
    rw [hbook]
    exact Function.update_self _ _ _
  refine h.step_of (p := r.post) ?_ (h.rolls.reparent hid) (fun k => filter_send k rfl)
    (fun k hk _ => ?_) (fun k hk hs => ?_) ⟨?_, fun l _ => hnil l⟩ ?_
  · rw [hbook]
    exact h.neat.setBank hnil fun i hi k => by rw [← Option.some.inj hi]; exact hfree k
  · by_cases e : k = c
    · rw [e, asked_nil (h.unasked c hnone (.inl hsome))]
      show [] = (r.net.srv.maps c .mapsUnack).map some
      rw [show r.net.srv.maps c .mapsUnack = [] from hnil _]
      rfl
    · rw [hbank e] at hk
      exact h.synced k hk (by rw [hm]; nofun)
  · have e : k ≠ c := by
      rintro rfl
      rw [hself] at hk
      cases hk
    rw [hbank e] at hk
    rw [Server.isSome_reparented] at hs
    exact ⟨hk, hs⟩
  · rw [hself]
    exact Option.some_ne_none _
  · rw [hbook]
    exact h.post.shrinks (Book.shrinks_setBank _ c _)

theorem Inv.relink (h : r.Inv) (hroster : s'.roster = r.net.srv.roster)
    (hsent : s'.sent = r.net.srv.sent) (hneat : s'.book.Neat)
    (hshrinks : Book.Shrinks r.net.srv.book s'.book)
    (hsync : ∀ c, r.net.srv.book.bankOf c ≠ none → main' ≠ .remove c → r.main ≠ .remove c ∧
      s'.maps c .mapsUnack = r.net.srv.maps c .mapsUnack)
    (hmain : MainInv s' main') : Inv (r.withSrv s' main') := by
  have hc : s'.conns = r.net.srv.conns := congrArg Roster.conns hroster
  have hb : s'.banks = r.net.srv.banks := congrArg (fun r : Roster => r.members .bank) hroster
  have hn : s'.nextConn = r.net.srv.nextConn := congrArg Roster.nextConn hroster
  have hbank : s'.book.bankOf = r.net.srv.book.bankOf := bankOf_congr (fun k => by rw [hc]) hb
  refine h.step_of hneat (h.rolls.of_sim (hroster ▸ Roster.Sim.refl _)) (fun k => by rw [hsent])
    (fun k hk hne => ?_)
    (fun k hk hs => ?_) hmain (h.post.shrinks hshrinks)
  · rw [hbank] at hk
    obtain ⟨h₁, h₂⟩ := hsync k hk hne
    rw [h₂]
    exact h.synced k hk h₁
  · rw [hbank] at hk
    rw [hc, hn] at hs
    exact ⟨hk, hs⟩

theorem Inv.onenter (h : r.Inv) (hm : r.main = .onenter c) :
    Inv (r.withSrv (r.net.srv.clntStConnectedBankdOnenter c) (.push c)) := by
  have hmain := h.main
  rw [hm] at hmain
  obtain ⟨hbank, hnil⟩ := hmain
  obtain ⟨id, hid⟩ := Option.ne_none_iff_exists'.mp hbank
  have hbook : (r.net.srv.clntStConnectedBankdOnenter c).book =
      r.net.srv.book.linkAll c r.net.srv.book.mappings :=
    Server.onenterLoop_spec c _ _ (Server.bankOf_eq_some.mp hid).1
  obtain ⟨hneat, hshrinks⟩ := Book.Neat.linkAll r.net.srv.book.mappings h.neat hid
  refine h.relink (Server.onenter_fixed Server.roster (fun _ _ _ _ => rfl) _ c)
    (Server.onenter_fixed Server.sent (fun _ _ _ _ => rfl) _ c) (hbook ▸ hneat) (hbook ▸ hshrinks)
    (fun k _ _ => ⟨by rw [hm]; nofun, ?_⟩) trivial
  exact (congrArg (fun b : Book => b.maps k .mapsUnack) hbook).trans
    (h.neat.linkAll_maps hid hnil (by decide))

theorem Inv.unlink (h : r.Inv) (hm : r.main = .unlink c) :
    Inv (r.withSrv (r.net.srv.unlinkAllSlotmaps c) (.remove c)) := by
  have hbook := Server.unlinkAllSlotmaps_book r.net.srv c
  obtain ⟨_, _, _, hmaps, _⟩ := h.neat.unlinkAll_spec c
  have hmaps' : ∀ k l, (r.net.srv.unlinkAllSlotmaps c).maps k l =
      if k = c then [] else r.net.srv.maps k l :=
    fun k l => (congrArg (fun b : Book => b.maps k l) hbook).trans (hmaps k l)
  refine h.relink
    (Server.unlinkAllSlotmaps_fixed Server.roster (fun _ _ _ _ => rfl) (fun _ _ => rfl) _ c)
    (Server.unlinkAllSlotmaps_fixed Server.sent (fun _ _ _ _ => rfl) (fun _ _ => rfl) _ c)
    (hbook ▸ h.neat.unlinkAll c) (hbook ▸ h.neat.shrinks_unlinkAll c)
    (fun k _ hne => ⟨by rw [hm]; nofun, ?_⟩) fun l => ?_
  · rw [hmaps', if_neg fun e => hne (by rw [e])]
  · rw [hmaps', if_pos rfl]

theorem Inv.remove (h : r.Inv) (hm : r.main = .remove c) :
    Inv (r.withSrv (r.net.srv.connFree c) .idle) := by
  have hnil : ∀ l, r.net.srv.maps c l = [] := by
    have hmain := h.main
    rw [hm] at hmain
    exact hmain
  have hbook := Server.book_connFree r.net.srv c
  have hconns : ∀ {k}, k ≠ c → (r.net.srv.connFree c).conns k = r.net.srv.conns k :=
    fun e => Function.update_of_ne e _ _
  have hself : (r.net.srv.connFree c).conns c = none := Function.update_self _ _ _
  have hbank : ∀ {k}, k ≠ c → (r.net.srv.connFree c).book.bankOf k = r.net.srv.book.bankOf k := by
    intro k e
    rw [hbook]
    exact Function.update_of_ne e _ _
  have hgone : (r.net.srv.connFree c).book.bankOf c = none := by
    rw [hbook]
    exact Function.update_self _ _ _
  have hne : ∀ {k}, k ∈ (r.net.srv.connFree c).banks → k ≠ c ∧ k ∈ r.net.srv.banks := by
    intro k hk
    have hk' : k ∈ r.net.srv.banks.filter (· ≠ c) := hk
    rw [List.mem_filter] at hk'
    exact ⟨by simpa using hk'.2, hk'.1⟩
  refine h.step_of (p := r.post) ?_
    ⟨fun k q hq => ?_, fun k hk => ?_, fun k hf hk => ?_, fun k hb ho => ?_⟩ (fun _ => rfl)
    (fun k hk _ => ?_) (fun k hk hs => ?_) trivial ?_
  · rw [hbook]
    exact h.neat.setBank hnil nofun
  · by_cases e : k = c
    · rw [e, hself] at hq
      cases hq
    · rw [hconns e] at hq
      exact h.rolls.fresh k q hq
  · obtain ⟨e, hk⟩ := hne hk
    rw [hconns e]
    exact h.rolls.present k hk
  · obtain ⟨e, hk⟩ := hne hk
    unfold Server.fi at hf
    rw [hconns e] at hf
    exact h.rolls.waiting k hf hk
  · have e : k ≠ c := fun e => hb (e ▸ hgone)
    rw [hbank e] at hb
    unfold Server.isOpen at ho
    unfold Server.fi
    rw [hconns e] at ho ⊢
    exact h.rolls.live k hb ho
  · have e : k ≠ c := fun e => hk (e ▸ hgone)
    rw [hbank e] at hk
    exact h.synced k hk (by rw [hm]; exact fun e' => e (Section.remove.inj e').symm)
  · by_cases e : k = c
    · subst e
      rw [hself] at hs
      have hle : r.net.srv.nextConn ≤ k := hs.resolve_left nofun
      refine ⟨h.rolls.not_mem.mpr fun hk => ?_, .inr hle⟩
      obtain ⟨q, hq⟩ := Option.isSome_iff_exists.mp (h.rolls.present k hk)
      exact absurd (h.rolls.fresh k q hq) (Nat.not_lt.mpr hle)
    · rw [hbank e] at hk
      rw [hconns e] at hs
      exact ⟨hk, hs⟩
  · rw [hbook]
    exact h.post.shrinks (Book.shrinks_setBank _ c _)

theorem asked_push (h : r.Inv) (k : ConnId) :
    asked ⟨⟨r.net.srv.push c, r.net.answered⟩, p', main'⟩ k =
      if k = c then r.asked c ++ (r.net.srv.maps c .mapsNew).map some else r.asked k := by
  obtain ⟨_, _, _, hsent⟩ := Server.push_neat h.neat c
  unfold asked Net.unanswered Net.requests
  show ((((r.net.srv.push c).sent k).filter _).drop (r.net.answered k .create)).map _ = _
  rw [hsent]
  split_ifs with e
  · subst e
    have hb : _ ≤ ((r.net.srv.sent k).filter (Tx.isKind .create)).length := h.bound k
    rw [Function.update_self, List.filter_append, List.drop_append_of_le_length hb,
      List.map_append, Book.filter_pushTxs_kind]
    exact congrArg _ (Book.map_filterMap_tx_of_alloc fun m hm => h.neat.heap_of_mem hm).2
  · rw [Function.update_of_ne e]

theorem Inv.push (h : r.Inv) (hm : ∀ k, r.main ≠ .remove k) (hmain : ∀ s, MainInv s main') :
    Inv (r.withSrv (r.net.srv.push c) main') := by
  obtain ⟨hbook, hroster, _, hsent⟩ := Server.push_neat h.neat c
  have hc : (r.net.srv.push c).conns = r.net.srv.conns := congrArg Roster.conns hroster
  have hn : (r.net.srv.push c).nextConn = r.net.srv.nextConn := congrArg Roster.nextConn hroster
  have hbank : (r.net.srv.push c).book.bankOf = r.net.srv.book.bankOf :=
    bankOf_congr (fun k => by rw [hc]) (congrArg (fun r : Roster => r.members .bank) hroster)
  have hneat : (r.net.srv.push c).book.Neat := hbook ▸ h.neat.push c
  have hsync : ∀ k, r.net.srv.book.bankOf k ≠ none →
      asked (r.withSrv (r.net.srv.push c) main') k =
        ((r.net.srv.push c).maps k .mapsUnack).map some := by
    intro k hk
    have hmaps : (r.net.srv.push c).maps k .mapsUnack = _ :=
      (congrArg (fun b : Book => b.maps k .mapsUnack) hbook).trans
        (h.neat.push_maps c k .mapsUnack)
    have hold := h.synced k hk (hm k)
    refine (asked_push h k).trans ?_
    rw [hmaps]
    split_ifs with e
    · subst e
      rw [hold, List.map_append]
      rfl
    · exact hold
  have hother : ∀ k, r.net.srv.book.bankOf k = none →
      asked (r.withSrv (r.net.srv.push c) main') k = r.asked k := by
    intro k hk
    refine (asked_push h k).trans ?_
    split_ifs with e
    · subst e
      rw [show r.net.srv.maps k .mapsNew = [] from h.neat.maps_eq_nil hk _]
      exact List.append_nil _
    · rfl
  have hlen : ∀ k, (r.net.requests k .create).length ≤
      ((r.withSrv (r.net.srv.push c) main').net.requests k .create).length := by
    intro k
    show _ ≤ (((r.net.srv.push c).sent k).filter _).length
    rw [hsent]
    by_cases e : k = c
    · subst e
      rw [Function.update_self, List.filter_append, List.length_append]
      exact Nat.le_add_right _ _
    · rw [Function.update_of_ne e]
      exact Nat.le_refl _
  refine ⟨hneat, h.rolls.of_sim (hroster ▸ Roster.Sim.refl _),
    fun k => Nat.le_trans (h.bound k) (hlen k), fun k hk _ => ?_, fun k hk hs => ?_, fun k => ?_,
    hmain _, h.post.shrinks (hbook ▸ h.neat.shrinks_push c)⟩
  · exact hsync k (hbank ▸ hk)
  · have hk' : r.net.srv.book.bankOf k = none := hbank ▸ hk
    have hs' : (r.net.srv.conns k).isSome = true ∨ r.net.srv.nextConn ≤ k := by
      rw [← hc, ← hn]
      exact hs
    have hold := h.unasked k hk' hs'
    show ((r.net.srv.push c).sent k).filter _ = []
    rw [hsent]
    by_cases e : k = c
    · subst e
      rw [Function.update_self, List.filter_append, Book.filter_pushTxs_kind]
      rw [show r.net.srv.book.maps k ReqKind.create.queue = [] from h.neat.maps_eq_nil hk' _]
      rw [List.filterMap_nil, List.append_nil]
      exact hold
    · rw [Function.update_of_ne e]
      exact hold
  · cases hk : r.net.srv.book.bankOf k with
    | none =>
        rw [hother k hk]
        exact h.once k
    | some id =>
        rw [hsync k (by rw [hk]; nofun)]
        exact (hneat.nodup k .mapsUnack).map fun _ _ => Option.some.inj

theorem Inv.dispatchPush (h : r.Inv) (hm : ∀ k, r.main ≠ .remove k)
    (hmain : ∀ s, MainInv s main') : Inv (r.withSrv (r.net.srv.dispatchPush c) main') := by
  unfold Server.dispatchPush
  split_ifs
  · exact h.push hm hmain
  · exact h.aside hm rfl h.rolls (fun _ => rfl) (fun _ hk => hk) (hmain _)

/-- Nothing is sent, one create request was answered, and the mapping at the head of `maps_unack`
has become active. -/
theorem Inv.ack (h : r.Inv) {m : MapId} {ms : List MapId} (hm : ∀ k, r.main ≠ .remove k)
    (hbank : r.net.srv.book.bankOf c ≠ none) (hl : r.net.srv.maps c .mapsUnack = m :: ms)
    (hcalm : Server.Calm (r.net.srv.slotmapStateChange m .active (some (c, .mapsActive))) s')
    (hmain : ∀ s, MainInv s r.main) :
    Inv ⟨⟨s', r.net.count c .create⟩, r.post, r.main⟩ := by
  have hbook : s'.book = r.net.srv.book.stateChange m .active (some (c, .mapsActive)) :=
    congrArg Ledger.toBook hcalm.ledger
  have hmem : m ∈ r.net.srv.book.maps c .mapsUnack := by
    show m ∈ r.net.srv.maps c .mapsUnack
    rw [hl]
    exact List.mem_cons_self
  obtain ⟨x, hx, _, hxb⟩ := h.neat.linked c .mapsUnack m hmem
  have hreq : ∀ k, (s'.sent k).filter (Tx.isKind .create) = r.net.requests k .create := by
    intro k
    obtain ⟨e, he, hr⟩ := hcalm.sent k
    rw [he, List.filter_append, Tx.filter_isKind .create e, hr]
    exact List.append_nil _
  have hnd : (m :: ms).Nodup := hl ▸ h.neat.nodup c .mapsUnack
  have hmaps : ∀ k, s'.maps k .mapsUnack = if k = c then ms else r.net.srv.maps k .mapsUnack := by
    intro k
    have : s'.maps k .mapsUnack = (r.net.srv.maps k .mapsUnack).filter (· ≠ m) ++
        if some (c, BankList.mapsActive) = some (k, .mapsUnack) then [m] else [] :=
      congrArg (fun b : Book => b.maps k .mapsUnack) hbook
    rw [this, if_neg (by simp), List.append_nil]
    split_ifs with e
    · rw [e, hl, List.filter_cons_of_neg (by simp)]
      exact ListLib.filter_ne_of_not_mem (List.nodup_cons.mp hnd).1
    · refine ListLib.filter_ne_of_not_mem fun hm' => e ?_
      exact (h.neat.unique hm' hmem).1
  have hask : ∀ k, asked ⟨⟨s', r.net.count c .create⟩, r.post, r.main⟩ k =
      if k = c then (r.asked c).tail else r.asked k := by
    intro k
    unfold asked Net.unanswered
    show (((s'.sent k).filter _).drop (r.net.count c .create k .create)).map _ = _
    rw [hreq]
    split_ifs with e
    · rw [e, Net.count_self, ← List.tail_drop, List.map_tail]
    · rw [Net.count_of_ne fun e' => e (Prod.mk.inj e').1]
  have hsync : ∀ k, r.net.srv.book.bankOf k ≠ none →
      asked ⟨⟨s', r.net.count c .create⟩, r.post, r.main⟩ k = (s'.maps k .mapsUnack).map some := by
    intro k hk
    rw [hask, hmaps]
    split_ifs with e
    · rw [h.synced c hbank (hm c), hl]
      rfl
    · exact h.synced k hk (hm k)
  have hbank' : s'.book.bankOf = r.net.srv.book.bankOf := by rw [hbook]; rfl
  have hneat : s'.book.Neat := by
    rw [hbook]
    refine h.neat.stateChange fun c' l e => ?_
    obtain ⟨rfl, rfl⟩ := Prod.mk.inj (Option.some.inj e)
    exact ⟨rfl, x, hx, hxb⟩
  refine ⟨hneat, h.rolls.of_sim hcalm.roster, fun k => ?_, fun k hk _ => hsync k (hbank' ▸ hk),
    fun k hk hs => ?_, fun k => ?_, hmain _, h.post.shrinks ?_⟩
  · show r.net.count c .create k .create ≤ ((s'.sent k).filter _).length
    rw [hreq]
    by_cases e : k = c
    · have hne : r.asked c ≠ [] := by
        rw [h.synced c hbank (hm c), hl]
        nofun
      rw [e, Net.count_self]
      refine Nat.lt_of_not_le fun hle => hne ?_
      unfold asked Net.unanswered
      rw [List.drop_of_length_le hle]
      rfl
    · rw [Net.count_of_ne fun e' => e (Prod.mk.inj e').1]
      exact h.bound k
  · show (s'.sent k).filter _ = []
    rw [hreq]
    have hs' : (r.net.srv.conns k).isSome = true ∨ r.net.srv.nextConn ≤ k := by
      rcases hs with hs | hs
      · exact hcalm.roster.le.conns k hs
      · rw [show s'.nextConn = _ from hcalm.roster.nextConn] at hs
        exact .inr hs
    exact h.unasked k (hbank' ▸ hk) hs'
  · rw [hask]
    split_ifs with e
    · exact (h.once c).sublist (List.tail_sublist _)
    · exact h.once k
  · rw [hbook]
    exact Book.shrinks_stateChange (.inl (by decide))

theorem Inv.answer (h : r.Inv) (hidle : r.main = .idle) {result : ResultCode} {n : Net}
    (hn : r.net.next (.answer c .create result) = some n) : Inv { r with net := n } := by
  obtain ⟨hun, hst, han⟩ := Net.step_answer.mp hn
  obtain ⟨ho, hp⟩ := Server.lts_step.mp hst
  have ho : r.net.srv.isOpen c = true := ho
  have hsome : (r.net.srv.conns c).isSome = true := by
    unfold Server.isOpen at ho
    cases hk : r.net.srv.conns c with
    | none =>
        rw [hk] at ho
        cases ho
    | some k => rfl
  have hbank : r.net.srv.book.bankOf c ≠ none := by
    intro hb
    refine hun ?_
    rw [Net.unanswered, h.unasked c hb (.inl hsome), List.drop_nil]
  have hacc : r.net.srv.accepts c .createMapRes = true :=
    (Server.accepts_bankd (.inr (.inl rfl))).mpr (h.rolls.live c hbank ho)
  have hp' : r.net.srv.createMapRes c = .ok n.srv := by
    change (if _ then _ else _) = _ at hp
    rwa [if_pos hacc] at hp
  obtain ⟨s', a⟩ := n
  obtain rfl : a = r.net.count c .create := han
  unfold Server.createMapRes at hp'
  cases hl : r.net.srv.maps c .mapsUnack with
  | nil =>
      rw [hl] at hp'
      cases hp'
  | cons m ms =>
      simp only [hl] at hp'
      split at hp'
      · cases hp'
      · exact h.ack (by simp [hidle]) hbank hl (Server.updateClientForSlotmap_calm hp')
          (by rw [hidle]; exact fun _ => trivial)

/-! ### All interleavings -/

theorem Inv.mainStep (h : r.Inv) {r' : Race} (hr : r.mainStep = some r') : r'.Inv := by
  unfold Race.mainStep at hr
  simp only at hr
  have same : ∀ main', (∀ k, r.main ≠ .remove k) → (∀ s, MainInv s main') →
      Inv (r.withSrv r.net.srv main') := fun main' hm hmain =>
    h.aside hm rfl h.rolls (fun _ => rfl) (fun _ hk => hk) (hmain _)
  split at hr
  · cases hr
  · rename_i c hm
    exact Option.some.inj hr ▸ h.reparent hm
  · rename_i c hm
    exact Option.some.inj hr ▸ h.onenter hm
  · rename_i c hm
    exact Option.some.inj hr ▸ h.dispatchPush (by simp [hm]) fun _ => trivial
  · rename_i hm
    exact Option.some.inj hr ▸ same .idle (by simp [hm]) fun _ => trivial
  · rename_i c cs hm
    split_ifs at hr
    · exact Option.some.inj hr ▸ same (.flush c cs) (by simp [hm]) fun _ => trivial
    · exact Option.some.inj hr ▸ same (.check cs) (by simp [hm]) fun _ => trivial
  · rename_i c cs hm
    exact Option.some.inj hr ▸ h.dispatchPush (by simp [hm]) fun _ => trivial
  · rename_i c hm
    exact Option.some.inj hr ▸ h.unlink hm
  · rename_i c hm
    exact Option.some.inj hr ▸ h.remove hm

theorem Inv.step (h : r.Inv) {l : Label} {r' : Race} (hu : r.Undisturbed l)
    (hst : lts.step r l r') : r'.Inv := by
  rw [step_iff] at hst
  cases l with
  | post => exact Option.some.inj hst ▸ h.post_step hu
  | main => exact h.mainStep hst
  | accept addr =>
      simp only [next] at hst
      split_ifs at hst with hm
      exact Option.some.inj hst ▸ h.accept hm addr
  | connectBank c identity bankId n =>
      simp only [next] at hst
      split_ifs at hst with hm
      exact h.connectBank hm.1 hm.2 hst
  | answer c result =>
      simp only [next] at hst
      split_ifs at hst with hm
      obtain ⟨n, hn, rfl⟩ := Option.map_eq_some_iff.mp hst
      exact h.answer hm hn
  | eventFd =>
      simp only [next] at hst
      split_ifs at hst with hm
      refine Option.some.inj hst ▸ h.aside (by simp [hm.1]) rfl
        (h.rolls.of_sim (Roster.Sim.refl _)) (fun _ => rfl) (fun _ hk => hk) trivial
  | closed c =>
      simp only [next] at hst
      split_ifs at hst with hm
      exact Option.some.inj hst ▸ h.detach hm.1 trivial
  | kaTimeout c =>
      simp only [next] at hst
      split_ifs at hst with hm
      rw [term_eq_detach hm.2] at hst
      exact Option.some.inj hst ▸ h.detach hm.1 trivial

theorem inv_initial (h : Initial r) : r.Inv := by
  obtain ⟨hreach, hidle, bank, client, hpost⟩ := h
  have hs := Net.reach_synced hreach
  have hg := hs.good
  have hrolls : Rolls r.net.srv := by
    refine ⟨hg.roster.fresh, fun c hc => ?_, fun c hf => ?_, fun c hb ho => ?_⟩
    · obtain ⟨k, hk⟩ := hg.bank_conn hc
      rw [hk]
      rfl
    · obtain ⟨_, _, _, _, _, _, hnb, _⟩ := hg.established hf
      exact hnb
    · exact Server.live_iff.mp (hg.live_of_open (hg.mem_banks.mpr hb) ho)
  have hask : ∀ c, r.net.srv.book.bankOf c ≠ none →
      r.asked c = (r.net.srv.maps c .mapsUnack).map some := by
    intro c hc
    unfold asked
    rw [hs.bank c (hg.mem_banks.mpr hc) .create]
    exact (Net.map_filterMap_tx hg.book c .create).2
  refine ⟨hg.book.neat, hrolls, fun c => hs.bound c .create, fun c hc _ => hask c hc,
    fun c hc hid => (hs.idle c (hg.bankOf_eq_none.mp hc) hid .create).1,
    fun c => Net.reach_once hreach c .create, ?_, ?_⟩
  · rw [hidle]
    trivial
  · rw [hpost]
    trivial

/-- **A create request for a mapping is unanswered at most once on a connection, and no mapping is
linked to a freed connection,** as long as the request does not disturb the main thread. -/
theorem undisturbed_safe (h : lts.Reach Undisturbed r) : r.Safe :=
  Inv.safe (h.invariant (fun _ => inv_initial) fun _ _ _ hi hu hst => Inv.step hi hu hst)

/-- The server after start-up when a request begins. -/
def begun : Race := ⟨Net.initial, .byBank ⟨1, 0⟩ ⟨5, 0⟩, .idle⟩

theorem initial_begun : Initial begun := ⟨.init rfl, rfl, _, _, rfl⟩

/-- The bank connects, and is lost, between the sections of the request. -/
def calmRun : List Label :=
  [.accept (some 1), .post, .connectBank 0 .remsimBankd 1 8, .post, .main, .main, .main, .post,
    .post, .post, .eventFd, .main, .main, .main, .answer 0 .ok, .closed 0, .main, .main]

theorem calmRun_safe : (Transition.after next begun (calmRun.take 13)).asked 0 = [some 0] ∧
    (Transition.after next begun calmRun).Safe :=
  ⟨by decide, undisturbed_safe (Transition.reach_after initial_begun rfl (by decide))⟩

/-- The bank connects after the insertion: its mapping is sent at once, and once more when the
request has changed it to `NEW` and linked it again. -/
def twiceRun : List Label :=
  [.accept (some 1), .post, .post, .post, .connectBank 0 .remsimBankd 1 8, .main, .main, .main,
    .post, .post, .eventFd, .main, .main]

/-- The bank is lost: the request links its mapping between the two sections of the teardown. -/
def lostRun : List Label :=
  [.accept (some 1), .connectBank 0 .remsimBankd 1 8, .main, .main, .main, .post, .post, .post,
    .post, .closed 0, .main, .post, .main]

/-- After the former two create requests for the mapping are unanswered; after the latter it is
linked to a connection that was freed. -/
theorem race_not_safe :
    (lts.Reach Transition.Lts.Any (Transition.after next begun twiceRun) ∧
      ((Transition.after next begun twiceRun).asked 0).count (some 0) = 2 ∧
      ¬(Transition.after next begun twiceRun).Safe) ∧
    lts.Reach Transition.Lts.Any (Transition.after next begun lostRun) ∧
      (Transition.after next begun lostRun).net.srv.maps 0 .mapsNew = [0] ∧
      (Transition.after next begun lostRun).net.srv.conns 0 = none ∧
      (Transition.after next begun lostRun).net.srv.banks = [] ∧
      ¬(Transition.after next begun lostRun).Safe := by
  have htwice : ((Transition.after next begun twiceRun).asked 0).count (some 0) = 2 := by decide
  have hmaps : (Transition.after next begun lostRun).net.srv.maps 0 .mapsNew = [0] := by decide
  have hconns : (Transition.after next begun lostRun).net.srv.conns 0 = none := by decide
  refine ⟨⟨Transition.reach_after initial_begun rfl (by decide), htwice, fun h => ?_⟩,
    Transition.reach_after initial_begun rfl (by decide), hmaps, hconns, by decide, fun h => ?_⟩
  · have := h.once 0 0
    rw [htwice] at this
    exact absurd this (by decide)
  · have := h.linked 0 .mapsNew 0 (by rw [hmaps]; exact List.mem_cons_self)
    rw [hconns] at this
    cases this

end Race
end Remsim
