import Remsim.Rest
import Remsim.Ledger

/-! # The connections of the server

The server keeps every connection in exactly one of three lists.  `Roster` is that part of its
state and `Roster.Inv` the invariant: the list is the one the FSM state stands for, the socket
and the FSM instance come and go together, and no two listed clients have the same slot.  A
connection whose FSM was terminated without being freed has neither; it stays in its list.

Connections are inserted (`Inv.put`), changed in place (`Inv.update`) and freed (`Inv.free`).
Functions that update a client's bankd configuration change nothing else and send no request to
a bank (`Server.Calm`). -/

namespace Remsim

/-- The three lists of the server. -/
inductive Role where
  | connection
  | client
  | bank
deriving DecidableEq, Repr

/-- The list that connections in an FSM state are in. -/
def ClntState.role : ClntState → Option Role
  | .established => some .connection
  | .rejected => some .connection
  | .connectedClient => some .client
  | .connectedBankd => some .bank
  | .init => none
  | .waitConfRes => none

/-- A connection without its client-side bankd configuration. -/
def Conn.core (k : Conn) : Conn := { k with bankd := ⟨⟨0, 0⟩, 0, 0⟩ }

/-- The connections and the lists they are in. -/
structure Roster where
  conns : ConnId → Option Conn
  members : Role → List ConnId
  nextConn : ConnId

namespace Roster

/-- The invariant of the connection lists. -/
structure Inv (r : Roster) : Prop where
  fresh : ∀ c k, r.conns c = some k → c < r.nextConn
  listed : ∀ c, (r.conns c).isSome ↔ ∃ ρ, c ∈ r.members ρ
  nodup : ∀ ρ, (r.members ρ).Nodup
  oneRole : ∀ c ρ ρ', c ∈ r.members ρ → c ∈ r.members ρ' → ρ = ρ'
  state : ∀ c k st, r.conns c = some k → k.fi = some st → ∃ ρ, st.role = some ρ ∧ c ∈ r.members ρ
  paired : ∀ c k, r.conns c = some k → k.fi.isSome = k.peer.isSome
  clientUnique : ∀ c c' k k', c ∈ r.members .client → c' ∈ r.members .client →
    r.conns c = some k → r.conns c' = some k' → k.clientSlot = k'.clientSlot → c = c'

/-- A connection is put at the end of a list and out of the others. -/
def put (r : Roster) (c : ConnId) (k : Conn) (ρ : Role) : Roster where
  conns := Function.update r.conns c (some k)
  members ρ' := (r.members ρ').filter (· ≠ c) ++ (if ρ' = ρ then [c] else [])
  nextConn := max r.nextConn (c + 1)

/-- A connection is changed in place. -/
def update (r : Roster) (c : ConnId) (k : Conn) : Roster :=
  { r with conns := Function.update r.conns c (some k) }

/-- A connection is taken off its list and freed. -/
def free (r : Roster) (c : ConnId) : Roster where
  conns := Function.update r.conns c none
  members ρ := (r.members ρ).filter (· ≠ c)
  nextConn := r.nextConn

variable {r : Roster}

theorem Inv.not_listed (h : r.Inv) {c : ConnId} (hc : r.conns c = none) (ρ : Role) :
    c ∉ r.members ρ := by
  intro hm
  have := (h.listed c).mpr ⟨ρ, hm⟩
  rw [hc] at this
  cases this

theorem mem_put {c a : ConnId} {k : Conn} {ρ ρ' : Role} :
    a ∈ (r.put c k ρ).members ρ' ↔ (a ∈ r.members ρ' ∧ a ≠ c) ∨ (a = c ∧ ρ' = ρ) := by
  simp only [put, List.mem_append, List.mem_filter, decide_eq_true_eq]
  split_ifs with h <;> simp [h]

theorem mem_free {c a : ConnId} {ρ : Role} :
    a ∈ (r.free c).members ρ ↔ a ∈ r.members ρ ∧ a ≠ c := by
  simp [free]

theorem Inv.update (h : r.Inv) {c : ConnId} {k k' : Conn} (hk : r.conns c = some k)
    (hst : ∀ st, k'.fi = some st → ∃ ρ, st.role = some ρ ∧ c ∈ r.members ρ)
    (hp : k'.fi.isSome = k'.peer.isSome)
    (hcl : c ∈ r.members .client → k'.clientSlot = k.clientSlot) : (r.update c k').Inv := by
  have slot : ∀ a ∈ r.members .client, ∀ q, Function.update r.conns c (some k') a = some q →
      ∃ q', r.conns a = some q' ∧ q.clientSlot = q'.clientSlot := by
    intro a ha q hq
    rcases ListLib.update_some_eq_some hq with ⟨rfl, rfl⟩ | ⟨_, hq⟩
    · exact ⟨k, hk, hcl ha⟩
    · exact ⟨q, hq, rfl⟩
  refine ⟨?_, ?_, h.nodup, h.oneRole, ?_, ?_, ?_⟩
  · intro a q hq
    rcases ListLib.update_some_eq_some hq with ⟨rfl, _⟩ | ⟨_, hq⟩
    · exact h.fresh a k hk
    · exact h.fresh a q hq
  · intro a
    show (Function.update r.conns c (some k') a).isSome ↔ _
    by_cases e : a = c
    · subst e
      rw [Function.update_self]
      refine Iff.trans ?_ (h.listed a)
      rw [hk]
      exact Iff.rfl
    · rw [Function.update_of_ne e]
      exact h.listed a
  · intro a q st hq hfi
    rcases ListLib.update_some_eq_some hq with ⟨rfl, rfl⟩ | ⟨_, hq⟩
    · exact hst st hfi
    · exact h.state a q st hq hfi
  · intro a q hq
    rcases ListLib.update_some_eq_some hq with ⟨rfl, rfl⟩ | ⟨_, hq⟩
    · exact hp
    · exact h.paired a q hq
  · intro a a' q q' ha ha' hq hq' e
    obtain ⟨p, hp₁, e₁⟩ := slot a ha q hq
    obtain ⟨p', hp₂, e₂⟩ := slot a' ha' q' hq'
    exact h.clientUnique a a' p p' ha ha' hp₁ hp₂ (by rw [← e₁, ← e₂, e])

/-- A connection moves to the list of its FSM state, or is new. -/
theorem Inv.put (h : r.Inv) (c : ConnId) {k : Conn} {ρ : Role}
    (hst : ∀ st, k.fi = some st → st.role = some ρ) (hp : k.fi.isSome = k.peer.isSome)
    (hcl : ρ = .client → ∀ a ∈ r.members .client, a ≠ c → ∀ q, r.conns a = some q →
      q.clientSlot ≠ k.clientSlot) : (r.put c k ρ).Inv := by
  refine ⟨?_, ?_, ?_, ?_, ?_, ?_, ?_⟩
  · intro a q hq
    rcases ListLib.update_some_eq_some hq with ⟨rfl, _⟩ | ⟨_, hq⟩
    · exact Nat.lt_of_lt_of_le (Nat.lt_succ_self a) (Nat.le_max_right _ _)
    · exact Nat.lt_of_lt_of_le (h.fresh a q hq) (Nat.le_max_left _ _)
  · intro a
    simp only [mem_put]
    show (Function.update r.conns c (some k) a).isSome ↔ _
    by_cases e : a = c
    · subst e
      simp
    · rw [Function.update_of_ne e, h.listed a]
      simp [e]
  · intro ρ'
    show ((r.members ρ').filter (· ≠ c) ++ _).Nodup
    split_ifs
    · rw [List.nodup_append]
      refine ⟨(h.nodup ρ').filter _, List.nodup_singleton c, ?_⟩
      rintro a ha b hb rfl
      rw [List.mem_singleton.mp hb] at ha
      simp at ha
    · simpa using (h.nodup ρ').filter _
  · intro a ρ₁ ρ₂ h₁ h₂
    rcases mem_put.mp h₁ with ⟨h₁, hne⟩ | ⟨rfl, rfl⟩ <;> rcases mem_put.mp h₂ with ⟨h₂, hne'⟩ | ⟨e, rfl⟩
    · exact h.oneRole a ρ₁ ρ₂ h₁ h₂
    · exact absurd e hne
    · exact absurd rfl hne'
    · rfl
  · intro a q st hq hfi
    rcases ListLib.update_some_eq_some hq with ⟨rfl, rfl⟩ | ⟨hne, hq⟩
    · exact ⟨ρ, hst st hfi, mem_put.mpr (.inr ⟨rfl, rfl⟩)⟩
    · obtain ⟨ρ', hρ, hm⟩ := h.state a q st hq hfi
      exact ⟨ρ', hρ, mem_put.mpr (.inl ⟨hm, hne⟩)⟩
  · intro a q hq
    rcases ListLib.update_some_eq_some hq with ⟨rfl, rfl⟩ | ⟨_, hq⟩
    · exact hp
    · exact h.paired a q hq
  · intro a a' q q' ha ha' hq hq' e
    rcases ListLib.update_some_eq_some hq with ⟨e₁, hk⟩ | ⟨hne, hold⟩ <;>
      rcases ListLib.update_some_eq_some hq' with ⟨e₂, hk'⟩ | ⟨hne', hold'⟩
    · rw [e₁, e₂]
    · rcases mem_put.mp ha with ⟨_, hne⟩ | ⟨_, hρ⟩
      · exact absurd e₁ hne
      · rcases mem_put.mp ha' with ⟨ha', _⟩ | ⟨e', _⟩
        · exact absurd (hk ▸ e.symm) (hcl hρ.symm a' ha' hne' q' hold')
        · exact absurd e' hne'
    · rcases mem_put.mp ha' with ⟨_, hne'⟩ | ⟨_, hρ⟩
      · exact absurd e₂ hne'
      · rcases mem_put.mp ha with ⟨ha, _⟩ | ⟨e', _⟩
        · exact absurd (hk' ▸ e) (hcl hρ.symm a ha hne q hold)
        · exact absurd e' hne
    · rcases mem_put.mp ha with ⟨ha, _⟩ | ⟨e', _⟩
      · rcases mem_put.mp ha' with ⟨ha', _⟩ | ⟨e', _⟩
        · exact h.clientUnique a a' q q' ha ha' hold hold' e
        · exact absurd e' hne'
      · exact absurd e' hne

theorem Inv.free (h : r.Inv) (c : ConnId) : (r.free c).Inv := by
  refine ⟨?_, ?_, fun ρ => (h.nodup ρ).filter _, ?_, ?_, ?_, ?_⟩
  · intro a q hq
    exact h.fresh a q (ListLib.update_none_eq_some hq).2
  · intro a
    simp only [mem_free]
    show (Function.update r.conns c none a).isSome ↔ _
    by_cases e : a = c
    · subst e
      simp
    · rw [Function.update_of_ne e, h.listed a]
      simp [e]
  · intro a ρ₁ ρ₂ h₁ h₂
    exact h.oneRole a ρ₁ ρ₂ (mem_free.mp h₁).1 (mem_free.mp h₂).1
  · intro a q st hq hfi
    obtain ⟨hne, hq⟩ := ListLib.update_none_eq_some hq
    obtain ⟨ρ, hρ, hm⟩ := h.state a q st hq hfi
    exact ⟨ρ, hρ, mem_free.mpr ⟨hm, hne⟩⟩
  · intro a q hq
    exact h.paired a q (ListLib.update_none_eq_some hq).2
  · intro a a' q q' ha ha' hq hq'
    exact h.clientUnique a a' q q' (mem_free.mp ha).1 (mem_free.mp ha').1
      (ListLib.update_none_eq_some hq).2 (ListLib.update_none_eq_some hq').2

/-- Addresses of connections are not used twice: connections in the later roster were there
before or are newer. -/
structure Le (r r' : Roster) : Prop where
  nextConn : r.nextConn ≤ r'.nextConn
  conns : ∀ c, (r'.conns c).isSome = true → (r.conns c).isSome = true ∨ r.nextConn ≤ c

theorem Le.refl (r : Roster) : Le r r := ⟨Nat.le_refl _, fun _ h => .inl h⟩

theorem Le.trans {r₁ r₂ r₃ : Roster} (h : Le r₁ r₂) (h' : Le r₂ r₃) : Le r₁ r₃ := by
  refine ⟨Nat.le_trans h.nextConn h'.nextConn, fun c hc => ?_⟩
  rcases h'.conns c hc with hc | hc
  · exact h.conns c hc
  · exact .inr (Nat.le_trans h.nextConn hc)

theorem Le.update {c : ConnId} {k : Conn} (hk : r.conns c = some k) (k' : Conn) :
    Le r (r.update c k') := by
  refine ⟨Nat.le_refl _, fun a ha => .inl ?_⟩
  obtain ⟨q, hq⟩ := Option.isSome_iff_exists.mp ha
  rcases ListLib.update_some_eq_some hq with ⟨rfl, _⟩ | ⟨_, hq⟩
  · rw [hk]; rfl
  · rw [hq]; rfl

theorem Le.put {c : ConnId} (hc : (r.conns c).isSome = true ∨ r.nextConn ≤ c) (k : Conn)
    (ρ : Role) : Le r (r.put c k ρ) := by
  refine ⟨Nat.le_max_left _ _, fun a ha => ?_⟩
  obtain ⟨q, hq⟩ := Option.isSome_iff_exists.mp ha
  rcases ListLib.update_some_eq_some hq with ⟨rfl, _⟩ | ⟨_, hq⟩
  · exact hc
  · exact .inl (by rw [hq]; rfl)

theorem Le.free (r : Roster) (c : ConnId) : Le r (r.free c) := by
  refine ⟨Nat.le_refl _, fun a ha => .inl ?_⟩
  obtain ⟨q, hq⟩ := Option.isSome_iff_exists.mp ha
  rw [(ListLib.update_none_eq_some hq).2]
  rfl

/-- Rosters that differ in the bankd configuration of clients only. -/
structure Sim (r r' : Roster) : Prop where
  conns : ∀ c, (r'.conns c).map Conn.core = (r.conns c).map Conn.core
  members : r'.members = r.members
  nextConn : r'.nextConn = r.nextConn

theorem Sim.refl (r : Roster) : Sim r r := ⟨fun _ => rfl, rfl, rfl⟩

theorem Sim.trans {r₁ r₂ r₃ : Roster} (h : Sim r₁ r₂) (h' : Sim r₂ r₃) : Sim r₁ r₃ :=
  ⟨fun c => (h'.conns c).trans (h.conns c), h'.members.trans h.members,
    h'.nextConn.trans h.nextConn⟩

theorem Sim.conn {r r' : Roster} (h : Sim r r') {c : ConnId} {k' : Conn}
    (hk : r'.conns c = some k') : ∃ k, r.conns c = some k ∧ k.core = k'.core := by
  have := h.conns c
  rw [hk, Option.map_some, eq_comm, Option.map_eq_some_iff] at this
  exact this

theorem Sim.le {r r' : Roster} (h : Sim r r') : Le r r' := by
  refine ⟨Nat.le_of_eq h.nextConn.symm, fun c hc => .inl ?_⟩
  obtain ⟨k', hk'⟩ := Option.isSome_iff_exists.mp hc
  obtain ⟨k, hk, _⟩ := h.conn hk'
  rw [hk]
  rfl

theorem Inv.sim {r r' : Roster} (h : r.Inv) (hs : Sim r r') : r'.Inv := by
  refine ⟨?_, ?_, ?_, ?_, ?_, ?_, ?_⟩
  · intro c k' hk'
    obtain ⟨k, hk, _⟩ := hs.conn hk'
    rw [hs.nextConn]
    exact h.fresh c k hk
  · intro c
    rw [hs.members, ← h.listed c, ← Option.isSome_map (f := Conn.core), hs.conns, Option.isSome_map]
  · rw [hs.members]; exact h.nodup
  · rw [hs.members]; exact h.oneRole
  · intro c k' st hk' hst
    obtain ⟨k, hk, e⟩ := hs.conn hk'
    rw [hs.members]
    exact h.state c k st hk ((show k.core.fi = k'.core.fi by rw [e]).trans hst)
  · intro c k' hk'
    obtain ⟨k, hk, e⟩ := hs.conn hk'
    have e₁ : k.core.fi = k'.core.fi := by rw [e]
    have e₂ : k.core.peer = k'.core.peer := by rw [e]
    show k'.core.fi.isSome = k'.core.peer.isSome
    rw [← e₁, ← e₂]
    exact h.paired c k hk
  · intro c c' k₁ k₂ hc hc' hk₁ hk₂ e
    rw [hs.members] at hc hc'
    obtain ⟨q₁, hq₁, e₁⟩ := hs.conn hk₁
    obtain ⟨q₂, hq₂, e₂⟩ := hs.conn hk₂
    refine h.clientUnique c c' q₁ q₂ hc hc' hq₁ hq₂ ?_
    have f₁ : q₁.core.clientSlot = k₁.core.clientSlot := by rw [e₁]
    have f₂ : q₂.core.clientSlot = k₂.core.clientSlot := by rw [e₂]
    exact f₁.trans (e.trans f₂.symm)

end Roster

namespace Server

variable (s : Server)

/-- The roster of the server. -/
def roster : Roster where
  conns := s.conns
  members
    | .connection => s.connections
    | .client => s.clients
    | .bank => s.banks
  nextConn := s.nextConn

/-- Only client configurations differ, and the PDUs sent in between are no requests. -/
structure Calm (s s' : Server) : Prop where
  slotmaps : s'.toSlotmaps = s.toSlotmaps
  maps : s'.maps = s.maps
  eventfd : s'.eventfd = s.eventfd
  roster : Roster.Sim s.roster s'.roster
  sent : ∀ c, ∃ extra, s'.sent c = s.sent c ++ extra ∧ extra.filter Tx.isRequest = []

variable {s} {s' s'' : Server}

theorem Calm.refl (s : Server) : Calm s s :=
  ⟨rfl, rfl, rfl, Roster.Sim.refl _, fun _ => ⟨[], by simp, rfl⟩⟩

theorem Calm.trans (h : Calm s s') (h' : Calm s' s'') : Calm s s'' := by
  refine ⟨h'.slotmaps.trans h.slotmaps, h'.maps.trans h.maps, h'.eventfd.trans h.eventfd,
    h.roster.trans h'.roster, fun c => ?_⟩
  obtain ⟨e, he, hr⟩ := h.sent c
  obtain ⟨e', he', hr'⟩ := h'.sent c
  exact ⟨e ++ e', by rw [he', he, List.append_assoc], by rw [List.filter_append, hr, hr']; rfl⟩

theorem Calm.bankd (s : Server) (c : ConnId) (f : ClientBankd → ClientBankd) :
    Calm s (s.modConn c fun k => { k with bankd := f k.bankd }) := by
  refine ⟨rfl, rfl, rfl, ⟨fun a => ?_, rfl, rfl⟩, fun _ => ⟨[], by simp [modConn], rfl⟩⟩
  show (Function.update s.conns c _ a).map Conn.core = (s.conns a).map Conn.core
  by_cases e : a = c
  · subst e
    rw [Function.update_self, Option.map_map]
    rfl
  · rw [Function.update_of_ne e]

theorem Calm.send (s : Server) (c : ConnId) {pdu : RsproPDU} {about : Option MapId}
    (h : Tx.isRequest ⟨pdu, about⟩ = false) : Calm s (s.clientConnSend c pdu about) := by
  refine ⟨rfl, rfl, rfl, Roster.Sim.refl _, fun a => ?_⟩
  show ∃ extra, Function.update s.sent c _ a = _ ∧ _
  by_cases e : a = c
  · subst e
    exact ⟨_, by rw [Function.update_self], by simp [h]⟩
  · exact ⟨[], by rw [Function.update_of_ne e, List.append_nil], rfl⟩

theorem Calm.clntStConnectedClient (s : Server) (c : ConnId) :
    Calm s (s.clntStConnectedClient c) := by
  unfold Server.clntStConnectedClient
  cases s.conns c with
  | none => exact Calm.refl s
  | some k => exact Calm.send s c rfl

/-- A new bankd configuration of a client. -/
def setBankd (s : Server) (c : ConnId) (q : ClientBankd) : Server :=
  s.modConn c fun k => { k with bankd := q }

theorem modConn_bankd_conns (s : Server) (c : ConnId) (f : ClientBankd → ClientBankd)
    {β : Type} (p : Conn → β) (hp : ∀ k q, p { k with bankd := q } = p k) (a : ConnId) :
    ((s.modConn c fun k => { k with bankd := f k.bankd }).conns a).map p = (s.conns a).map p := by
  show (Function.update s.conns c _ a).map p = (s.conns a).map p
  by_cases e : a = c
  · subst e
    rw [Function.update_self, Option.map_map]
    exact congrArg (fun g => (s.conns a).map g) (funext fun k => hp k _)
  · rw [Function.update_of_ne e]

theorem bankdAddr_modConn (s : Server) (c : ConnId) (f : ClientBankd → ClientBankd)
    (x : SlotMapping) (bc : Option ConnId) :
    (s.modConn c fun k => { k with bankd := f k.bankd }).bankdAddr x bc = s.bankdAddr x bc := by
  unfold bankdAddr
  have h : ∀ b, ((s.modConn c fun k => { k with bankd := f k.bankd }).conns b).bind Conn.peer =
      (s.conns b).bind Conn.peer := by
    intro b
    exact ListLib.bind_congr_map (modConn_bankd_conns s c f Conn.peer (fun _ _ => rfl) b)
  simp only [h]

theorem bankdConnById_modConn (s : Server) (c : ConnId) (f : ClientBankd → ClientBankd)
    (i : UInt16) :
    (s.modConn c fun k => { k with bankd := f k.bankd }).bankdConnById i = s.bankdConnById i := by
  unfold bankdConnById
  refine ListLib.find?_congr fun a _ => ?_
  have := modConn_bankd_conns s c f (fun k => decide (k.bankId = i)) (fun _ _ => rfl) a
  have h := congrArg (fun o => Option.any id o) this
  simpa only [Option.any_map, Function.comp_def, id] using h

/-- `_update_client_for_slotmap()` without the assignments that are overwritten: the address of
the bankd is determined, stored with the bank slot, and sent if anything changed. -/
theorem updateClientForSlotmap_eq {x : SlotMapping} {bc : Option ConnId} {c : ConnId}
    (hc : s.clientConnBySlot x.client = some c) :
    s.updateClientForSlotmap x bc =
      (s.bankdAddr x (bc <|> s.bankdConnById x.bank.bankId)).map fun
        | none => s.modConn c fun k => { k with bankd := { k.bankd with slot := x.bank } }
        | some (ip, port) =>
            if (s.conns c).map Conn.bankd ≠ some ⟨x.bank, ip, port⟩ ∧ s.accepts c .clCfgBankd then
              (s.setBankd c ⟨x.bank, ip, port⟩).clntStConnectedClient c
            else s.setBankd c ⟨x.bank, ip, port⟩ := by
  unfold updateClientForSlotmap
  simp only [hc]
  have hlook := bankdConnById_modConn s c (fun q => { q with slot := x.bank }) x.bank.bankId
  have haddr := bankdAddr_modConn s c (fun q => { q with slot := x.bank }) x
  simp only [hlook, haddr]
  cases s.bankdAddr x (bc <|> s.bankdConnById x.bank.bankId) with
  | error e => rfl
  | ok o =>
      cases o with
      | none => rfl
      | some p =>
          obtain ⟨ip, port⟩ := p
          have hset : ((s.modConn c fun k => { k with bankd := { k.bankd with slot := x.bank } }).modConn
              c fun k => { k with bankd := ⟨x.bank, ip, port⟩ }) = s.setBankd c ⟨x.bank, ip, port⟩ := by
            unfold setBankd modConn
            simp [Function.comp_def]
          have hfi : (s.setBankd c ⟨x.bank, ip, port⟩).accepts c .clCfgBankd =
              s.accepts c .clCfgBankd := by
            unfold accepts
            exact congrArg (fun o => Option.any _ o) (ListLib.bind_congr_map
              (modConn_bankd_conns s c (fun _ => ⟨x.bank, ip, port⟩) Conn.fi (fun _ _ => rfl) c))
          simp only [bind, Except.bind, Except.map, hset, hfi]
          by_cases h₁ : (s.conns c).map Conn.bankd = some ⟨x.bank, ip, port⟩
          · simp [h₁]
          · by_cases h₂ : s.accepts c .clCfgBankd = true <;> simp [h₁, h₂]

theorem updateClientForSlotmap_none {x : SlotMapping} {bc : Option ConnId}
    (hc : s.clientConnBySlot x.client = none) : s.updateClientForSlotmap x bc = .ok s := by
  unfold updateClientForSlotmap
  rw [hc]

theorem updateClientForSlotmap_calm {x : SlotMapping} {bc : Option ConnId}
    (h : s.updateClientForSlotmap x bc = .ok s') : Calm s s' := by
  cases hc : s.clientConnBySlot x.client with
  | none =>
      rw [updateClientForSlotmap_none hc] at h
      obtain rfl := Except.ok.inj h
      exact Calm.refl s
  | some c =>
      rw [updateClientForSlotmap_eq hc] at h
      cases ha : s.bankdAddr x (bc <|> s.bankdConnById x.bank.bankId) with
      | error e =>
          rw [ha] at h
          cases h
      | ok o =>
          rw [ha] at h
          obtain rfl := Except.ok.inj h
          cases o with
          | none => exact Calm.bankd s c fun q => { q with slot := x.bank }
          | some p =>
              obtain ⟨ip, port⟩ := p
              have h₁ : Calm s (s.setBankd c ⟨x.bank, ip, port⟩) := Calm.bankd s c fun _ => _
              simp only
              split_ifs
              · exact h₁.trans (Calm.clntStConnectedClient _ c)
              · exact h₁

/-- The only fault of an update is a bank connection without a socket. -/
theorem updateClientForSlotmap_error {x : SlotMapping} {bc : Option ConnId} {e : Fault}
    (h : s.updateClientForSlotmap x bc = .error e) :
    e = .nullPeer ∧ x.state ≠ .deleting ∧ ∃ b, (bc <|> s.bankdConnById x.bank.bankId) = some b ∧
      (s.conns b).bind Conn.peer = none := by
  cases hc : s.clientConnBySlot x.client with
  | none =>
      rw [updateClientForSlotmap_none hc] at h
      cases h
  | some c =>
      rw [updateClientForSlotmap_eq hc] at h
      unfold bankdAddr at h
      split_ifs at h with hst
      · cases h
      · cases hb : (bc <|> s.bankdConnById x.bank.bankId) with
        | none =>
            rw [hb] at h
            cases h
        | some b =>
            cases hp : (s.conns b).bind Conn.peer with
            | none =>
                simp only [hb, hp, Except.map] at h
                exact ⟨(Except.error.inj h).symm, hst, b, rfl, hp⟩
            | some p =>
                simp only [hb, hp, Except.map] at h
                cases h

end Server
end Remsim
