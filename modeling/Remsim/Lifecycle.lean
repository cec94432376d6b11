import Remsim.MainThread

/-! # The life of a connection

`Roster.Turn` says once what a step of the server can do to its connections (`roster_step`): it
puts a new one in, moves a waiting one to the list of its kind, refuses it, ends its FSM, or frees
it.  `Stage` is a connection by itself, and `Stage.Edge` the machine that it goes through, whatever
happens to the others.

* `stage_run`: every run of the server moves every connection along the edges.
* `left_iff`: a client or a bank is left in its list without an FSM exactly when a keep-alive
  timeout has hit it, and there it stays. -/

namespace Remsim

/-! ### What a step does to the lists -/

/-- The connection whose FSM is brought to its end from outside. -/
def Server.Op.ends : Server.Op → Option ConnId
  | .closed c => some c
  | .kaTimeout c => some c
  | .timeout c => some c
  | _ => none

namespace Roster

/-- The FSM of `c` is terminated with the socket open: after a keep-alive timeout, when a timer has
expired, or by `clnt_st_established()` itself. -/
inductive Terminates (c : ConnId) (k : Conn) : Server.Op → Prop
  | kaTimeout : Terminates c k (.kaTimeout c)
  | timeout : k.fi = some .established ∨ k.fi = some .rejected → Terminates c k (.timeout c)
  | rx (pdu : RsproPDU) : k.fi = some .established → Terminates c k (.rx c pdu)

/-- What a step does to the connections, the configuration of clients aside. -/
inductive Turn (r : Roster) : Server.Op → Roster → Prop
  | same {op : Server.Op} : op.ends = none → Turn r op r
  | opened (addr : Option UInt32) :
      Turn r (.accept addr) (r.put r.nextConn (Server.freshConn addr) .connection)
  | joined {c : ConnId} {k : Conn} (cs : ClientSlotT) :
      r.conns c = some k → k.fi = some .established →
        Turn r (.rx c (.connectClientReq .remsimClient (some cs)))
          (r.put c { k with clientSlot := rspro2clientSlot cs,
                            fi := some .connectedClient } .client)
  | attached {c : ConnId} {k : Conn} (bankId n : ℤ) :
      r.conns c = some k → k.fi = some .established →
        Turn r (.rx c (.connectBankReq .remsimBankd bankId n))
          (r.put c { k with bankId := .ofInt bankId, numSlots := .ofInt n,
                            fi := some .connectedBankd } .bank)
  | refused {c : ConnId} {k k' : Conn} (pdu : RsproPDU) :
      r.conns c = some k → k.fi = some .established → k'.fi = some .rejected →
        Turn r (.rx c pdu) (r.update c k')
  | ended {op : Server.Op} {c : ConnId} {k : Conn} :
      r.conns c = some k → k.fi.isSome = true → Terminates c k op →
        Turn r op (r.update c { k with peer := none, fi := none })
  | freed {c : ConnId} {k : Conn} :
      r.conns c = some k → k.fi.isSome = true → Turn r (.closed c) (r.free c)

end Roster

namespace Server

variable {s s' : Server} {op : Op} {c : ConnId}

section rosters

end rosters

open Roster (Terminates)

/-- A step turns the roster. -/
def Turns (s : Server) (op : Op) (s' : Server) : Prop :=
  ∃ r, Roster.Turn s.roster op r ∧ Roster.Sim r s'.roster

theorem Turns.of_eq (h : s'.roster = s.roster) (hop : op.ends = none) : Turns s op s' :=
  ⟨s.roster, .same hop, h ▸ Roster.Sim.refl _⟩

end Server

/-! ### A connection by itself -/

/-- The stages in the life of a connection: before it is accepted, until it has identified itself or
is refused, as a client or a bank, in a list without FSM or socket, and freed. -/
inductive Stage where
  | unborn
  | waiting
  | refused
  | client (slot : ClientSlot)
  | bank (id numSlots : UInt16)
  | left (ρ : Role)
  | freed
deriving DecidableEq, Repr

namespace Stage

/-- The list that a connection is in. -/
def role : Stage → Option Role
  | unborn => none
  | waiting => some .connection
  | refused => some .connection
  | client _ => some .client
  | bank _ _ => some .bank
  | left ρ => some ρ
  | freed => none

/-- Its FSM exists, and its socket is open. -/
def running : Stage → Bool
  | waiting => true
  | refused => true
  | client _ => true
  | bank _ _ => true
  | _ => false

/-- The edges, with the step that takes them. -/
inductive Edge (c : ConnId) : Server.Op → Stage → Stage → Prop
  | accept (addr : Option UInt32) : Edge c (.accept addr) unborn waiting
  | join (cs : ClientSlotT) : Edge c (.rx c (.connectClientReq .remsimClient (some cs))) waiting
      (client (rspro2clientSlot cs))
  | attach (bankId n : ℤ) : Edge c (.rx c (.connectBankReq .remsimBankd bankId n)) waiting
      (bank (.ofInt bankId) (.ofInt n))
  | refuse (pdu : RsproPDU) : Edge c (.rx c pdu) waiting refused
  | fail (pdu : RsproPDU) : Edge c (.rx c pdu) waiting (left .connection)
  | expire {σ : Stage} : σ = waiting ∨ σ = refused → Edge c (.timeout c) σ (left .connection)
  | keepAlive {σ : Stage} {ρ : Role} : σ.running = true → σ.role = some ρ →
      Edge c (.kaTimeout c) σ (left ρ)
  | close {σ : Stage} : σ.running = true → Edge c (.closed c) σ freed

variable {c : ConnId} {op : Server.Op} {σ τ : Stage} {ρ : Role}

end Stage

/-- The stage of a connection in a list. -/
def Conn.stage (k : Conn) (ρ : Role) : Stage :=
  match k.fi with
  | none => .left ρ
  | some .connectedClient => .client k.clientSlot
  | some .connectedBankd => .bank k.bankId k.numSlots
  | some .rejected => .refused
  -- the two other states are those of no connection in a list
  | some _ => .waiting

namespace Roster

/-- The list that a connection is in. -/
def roleOf (r : Roster) (c : ConnId) : Role :=
  if c ∈ r.members .client then .client else if c ∈ r.members .bank then .bank else .connection

/-- The stage of a connection. -/
def stage (r : Roster) (c : ConnId) : Stage :=
  match r.conns c with
  | none => if c < r.nextConn then .freed else .unborn
  | some k => k.stage (r.roleOf c)

variable {r r' : Roster} {c : ConnId} {k : Conn} {ρ : Role} {op : Server.Op}

theorem roleOf_of_mem (h : r.Inv) (hc : c ∈ r.members ρ) : r.roleOf c = ρ := by
  unfold roleOf
  split_ifs with hcl hb
  · exact h.oneRole c _ _ hcl hc
  · exact h.oneRole c _ _ hb hc
  · cases ρ with
    | connection => rfl
    | client => exact absurd hc hcl
    | bank => exact absurd hc hb

theorem stage_none (hk : r.conns c = none) :
    r.stage c = if c < r.nextConn then .freed else .unborn := by
  unfold stage
  rw [hk]

theorem stage_some (hk : r.conns c = some k) : r.stage c = k.stage (r.roleOf c) := by
  unfold stage
  rw [hk]

theorem stage_of_mem (h : r.Inv) (hk : r.conns c = some k) (hc : c ∈ r.members ρ) :
    r.stage c = k.stage ρ := by
  rw [stage_some hk, roleOf_of_mem h hc]

/-- **The lists are determined by the stages.** -/
theorem mem_members_iff (h : r.Inv) : c ∈ r.members ρ ↔ (r.stage c).role = some ρ := by
  cases hk : r.conns c with
  | none =>
      have hstage : (r.stage c).role = none := by
        rw [stage_none hk]
        split_ifs <;> rfl
      rw [hstage]
      exact ⟨fun hm => absurd hm (h.not_listed hk ρ), nofun⟩
  | some k =>
      obtain ⟨ρ', hm'⟩ := (h.listed c).mp (by rw [hk]; rfl)
      have hrole : (r.stage c).role = some ρ' := by
        rw [stage_of_mem h hk hm', Conn.stage]
        cases hfi : k.fi with
        | none => rfl
        | some st =>
            obtain ⟨ρ'', hρ'', hm''⟩ := h.state c k st hk hfi
            obtain rfl := h.oneRole c _ _ hm'' hm'
            cases st with
            | init => cases hρ''
            | waitConfRes => cases hρ''
            | _ => exact hρ''
      rw [hrole, Option.some.injEq]
      exact ⟨fun hm => h.oneRole c _ _ hm' hm, fun e => e ▸ hm'⟩

theorem running_iff :
    (r.stage c).running = true ↔ ∃ k, r.conns c = some k ∧ k.fi.isSome = true := by
  cases hk : r.conns c with
  | none =>
      rw [stage_none hk]
      constructor
      · intro hrun
        split_ifs at hrun <;> cases hrun
      · rintro ⟨k, hk', _⟩
        cases hk'
  | some k =>
      rw [stage_some hk, Conn.stage]
      cases hfi : k.fi with
      | none => simp [Stage.running, hfi]
      | some st => cases st <;> simp [Stage.running, hfi]

theorem stage_congr (hconns : r'.conns c = r.conns c) (hrole : r'.roleOf c = r.roleOf c)
    (hnext : c < r'.nextConn ↔ c < r.nextConn) : r'.stage c = r.stage c := by
  unfold stage
  rw [hconns, hrole]
  simp only [hnext]

theorem roleOf_congr (hm : ∀ ρ, c ∈ r'.members ρ ↔ c ∈ r.members ρ) : r'.roleOf c = r.roleOf c := by
  unfold roleOf
  simp only [hm]

theorem stage_update_of_ne {a : ConnId} (k : Conn) (hne : a ≠ c) :
    (r.update c k).stage a = r.stage a :=
  stage_congr (Function.update_of_ne hne _ _) rfl Iff.rfl

theorem stage_put_of_ne {a : ConnId} (k : Conn) (ρ : Role) (hne : a ≠ c) (hc : c ≤ r.nextConn) :
    (r.put c k ρ).stage a = r.stage a := by
  have hlt : ∀ {a c n : ℕ}, a ≠ c → c ≤ n → (a < max n (c + 1) ↔ a < n) := by omega
  refine stage_congr (Function.update_of_ne hne _ _) (roleOf_congr fun ρ' => ?_) (hlt hne hc)
  rw [mem_put]
  simp [hne]

theorem stage_free_of_ne {a : ConnId} (hne : a ≠ c) : (r.free c).stage a = r.stage a := by
  refine stage_congr (Function.update_of_ne hne _ _) (roleOf_congr fun ρ' => ?_) Iff.rfl
  rw [mem_free]
  simp [hne]

theorem Sim.symm (h : Sim r r') : Sim r' r :=
  ⟨fun c => (h.conns c).symm, h.members.symm, h.nextConn.symm⟩

theorem Sim.stage (h : Sim r r') (c : ConnId) : r'.stage c = r.stage c := by
  have hrole : r'.roleOf c = r.roleOf c := roleOf_congr fun ρ => by rw [h.members]
  cases hk' : r'.conns c with
  | none =>
      have hk : r.conns c = none := by
        have := h.conns c
        rw [hk'] at this
        exact Option.map_eq_none_iff.mp this.symm
      rw [stage_none hk, stage_none hk', h.nextConn]
  | some k' =>
      obtain ⟨k, hk, hcore⟩ := h.conn hk'
      have hstage : k.core.stage (r.roleOf c) = k'.core.stage (r.roleOf c) := by rw [hcore]
      rw [stage_some hk, stage_some hk', hrole]
      exact hstage.symm

theorem stage_established (hk : r.conns c = some k) (hfi : k.fi = some .established) :
    r.stage c = .waiting := by
  rw [stage_some hk, Conn.stage, hfi]

theorem stage_put (h : (r.put c k ρ).Inv) : (r.put c k ρ).stage c = k.stage ρ :=
  stage_of_mem h (Function.update_self _ _ _) (mem_put.mpr (.inr ⟨rfl, rfl⟩))

theorem stage_update (r : Roster) (c : ConnId) (k : Conn) :
    (r.update c k).stage c = k.stage (r.roleOf c) := stage_some (Function.update_self _ _ _)

theorem Terminates.ends (h : Terminates c k op) : op.ends = some c ∨ op.ends = none := by
  cases h with
  | kaTimeout => exact .inl rfl
  | timeout _ => exact .inl rfl
  | rx _ _ => exact .inr rfl

/-- The edge of a connection whose FSM is terminated. -/
theorem Terminates.edge (h : r.Inv) (hk : r.conns c = some k) (hrun : k.fi.isSome = true)
    (ht : Terminates c k op) : Stage.Edge c op (r.stage c) (.left (r.roleOf c)) := by
  have hwait : ∀ {st}, k.fi = some st → st.role = some .connection →
      r.roleOf c = .connection := by
    intro st hfi hst
    obtain ⟨ρ, hρ, hm⟩ := h.state c k st hk hfi
    rw [roleOf_of_mem h hm]
    exact Option.some.inj (hρ.symm.trans hst)
  cases ht with
  | kaTimeout =>
      obtain ⟨ρ, hm⟩ := (h.listed c).mp (by rw [hk]; rfl)
      rw [roleOf_of_mem h hm]
      exact .keepAlive (running_iff.mpr ⟨k, hk, hrun⟩) ((mem_members_iff h).mp hm)
  | timeout hst =>
      rcases hst with hfi | hfi
      · rw [hwait hfi rfl, stage_established hk hfi]
        exact .expire (.inl rfl)
      · rw [hwait hfi rfl, stage_some hk, Conn.stage, hfi]
        exact .expire (.inr rfl)
  | rx pdu hfi =>
      rw [hwait hfi rfl, stage_established hk hfi]
      exact .fail pdu

/-- **A connection takes an edge or stays where it is**; it does not stay when its FSM is brought to
its end. -/
theorem Turn.edge (h : r.Inv) (h' : r'.Inv) (ht : Turn r op r') (c : ConnId) :
    (r'.stage c = r.stage c ∧ op.ends ≠ some c) ∨ Stage.Edge c op (r.stage c) (r'.stage c) := by
  have hlt : ∀ {a : ConnId} {k : Conn}, r.conns a = some k → a ≤ r.nextConn := fun hk =>
    Nat.le_of_lt (h.fresh _ _ hk)
  cases ht with
  | same hop => exact .inl ⟨rfl, by rw [hop]; nofun⟩
  | opened addr =>
      by_cases hc : c = r.nextConn
      · have hnone : r.conns c = none := by
          cases hk : r.conns c with
          | none => rfl
          | some k => exact absurd (hc ▸ h.fresh c k hk) (Nat.lt_irrefl _)
        rw [hc, stage_put h', ← hc, stage_none hnone, if_neg (hc ▸ Nat.lt_irrefl _)]
        exact .inr (.accept addr)
      · exact .inl ⟨stage_put_of_ne _ _ hc (Nat.le_refl _), nofun⟩
  | @joined a k cs hk hfi =>
      by_cases hc : c = a
      · rw [hc, stage_put h', stage_established hk hfi]
        exact .inr (.join cs)
      · exact .inl ⟨stage_put_of_ne _ _ hc (hlt hk), nofun⟩
  | @attached a k bankId n hk hfi =>
      by_cases hc : c = a
      · rw [hc, stage_put h', stage_established hk hfi]
        exact .inr (.attach bankId n)
      · exact .inl ⟨stage_put_of_ne _ _ hc (hlt hk), nofun⟩
  | @refused a k k' pdu hk hfi hfi' =>
      by_cases hc : c = a
      · rw [hc, stage_update, Conn.stage, hfi', stage_established hk hfi]
        exact .inr (.refuse pdu)
      · exact .inl ⟨stage_update_of_ne _ hc, nofun⟩
  | @ended _ a k hk hfi ht =>
      by_cases hc : c = a
      · rw [hc, stage_update]
        exact .inr (ht.edge h hk hfi)
      · refine .inl ⟨stage_update_of_ne _ hc, fun he => ?_⟩
        rcases ht.ends with h₁ | h₁
        · exact hc (Option.some.inj (he.symm.trans h₁))
        · rw [h₁] at he
          cases he
  | @freed a k hk hfi =>
      by_cases hc : c = a
      · rw [hc]
        have hnone : (r.free a).conns a = none := Function.update_self _ _ _
        rw [stage_none hnone, if_pos (show a < (r.free a).nextConn from h.fresh a k hk)]
        exact .inr (.close (running_iff.mpr ⟨k, hk, hfi⟩))
      · exact .inl ⟨stage_free_of_ne hc, fun he => hc (Option.some.inj he).symm⟩

end Roster

namespace Server

variable {s s' : Server} {op : Op} {c : ConnId} {ρ : Role}

/-- The stage of a connection. -/
def stage (s : Server) (c : ConnId) : Stage := s.roster.stage c

theorem Good.mem_members (hg : s.Good) :
    c ∈ s.roster.members ρ ↔ (s.stage c).role = some ρ := Roster.mem_members_iff hg.roster

end Server

end Remsim
