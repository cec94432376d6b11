import Remsim.RsproClient
import Remsim.Transition

/-! # The reconnect back-off (`rspro_client_fsm.c`)

A connection on its own, with a clock: every input comes with the time at which it is processed,
times do not decrease, and a timer does not expire before it is due.  `SRVC_E_ESTABLISH` and
`SRVC_E_DISCONNECT` may come at any time, so that the runs cover those of every program that leaves
the connection alone in between (`Host.Lawful`).

`Mark.Follows` says which entries may stand next to each other in the record of a connection; the
properties of the delays are read off from that (`Backoff`).
-/

namespace Remsim

/-- A connection and the time. -/
structure Solo where
  srvc : SrvConn
  now : ℕ

/-- What happens to a connection. -/
inductive SrvcInput where
  | establish
  | disconnect
  | tcpUp
  | tcpDown
  | kaTimeout
  | connRes (result : ResultCode)
  | tx (pdu : RsproPDU)
  | expiry
deriving DecidableEq, Repr

namespace Solo

/-- A connection without a parent. -/
def host (notifies : Stream → Bool) : Host Solo where
  get := srvc
  set c s := { s with srvc := c }
  now := now
  parent _ s := s
  notifies := notifies

variable (notifies : Stream → Bool)

theorem lawful : (host notifies).Lawful :=
  ⟨fun _ _ => rfl, fun _ _ _ => rfl, fun _ => rfl, fun _ _ => rfl, fun _ _ => rfl, fun _ _ => rfl,
    fun _ _ _ => rfl⟩

/-- An input is processed. -/
def input (s : Solo) : SrvcInput → Option Solo
  | .establish => some ((host notifies).dispatch .establish s)
  | .disconnect => some ((host notifies).dispatch .disconnect s)
  | .tcpUp => some ((host notifies).srvcConnectCb s)
  | .tcpDown => some ((host notifies).streamDown s)
  | .kaTimeout => some ((host notifies).dispatch .kaTimeout s)
  | .connRes result => some ((host notifies).dispatch (.clientConnRes result) s)
  | .tx pdu => some ((host notifies).dispatch (.rsproTx pdu) s)
  | .expiry => (host notifies).expire s

/-- An input at a time. -/
structure Label where
  time : ℕ
  input : SrvcInput
deriving DecidableEq, Repr

/-- The successor state, if the step can happen. -/
def next (s : Solo) (l : Label) : Option Solo :=
  if s.now ≤ l.time then input notifies { s with now := l.time } l.input else none

/-- The state after `server_conn_fsm_alloc()`. -/
def Initial (s : Solo) : Prop :=
  s.srvc.fi = ⟨.init, none⟩ ∧ s.srvc.conn = none ∧ s.srvc.reestablishDelayIdx = 0 ∧
    s.srvc.reestablishLastMs = 0 ∧ s.srvc.hist = []

/-- All runs of a connection. -/
def lts : Transition.Lts Solo Label := Transition.ofFun Initial (next notifies)

/-- A running timer does not expire late: nothing is processed after it is due. -/
def Prompt (s : Solo) (l : Label) : Prop := ∀ t ∈ s.srvc.fi.timer, l.time ≤ t.due

end Solo

/-! ### The record of a connection -/

namespace Mark

/-- A command that the connection was given. -/
def isCommand : Mark → Bool
  | .establish _ | .disconnect _ => true
  | _ => false

def isAttempt : Mark → Bool
  | .attempt _ _ => true
  | _ => false

def isDelay : Mark → Bool
  | .delay _ _ _ => true
  | _ => false

/-- The index in use for a delay. -/
def index : Mark → Option ℕ
  | .delay _ i _ => some i
  | _ => none

/-- The time after which an attempt counts as long ago. -/
def resetMs : ℕ := 32000

/-- Which entry may follow which. -/
def Follows : Mark → Mark → Prop
  | .delay t i d, .attempt ta j => t + d ≤ ta ∧ j = SrvConn.nextIdx i
  | .attempt ta j, .delay t i d => ta ≤ t ∧ ta + 1000 * delayS i ≤ t + d ∧
      i = if ta + resetMs < t then 0 else j
  | .establish _, .delay _ i _ => i = 0
  | .establish _, .attempt _ j => j = 0
  | _, .establish _ => True
  | _, .disconnect _ => True
  | _, _ => False

/-- A delay that may be armed. -/
def Bounded : Mark → Prop
  | .delay _ i d => i < reestablishDelayCount ∧ 0 < d ∧ d ≤ 16000
  | _ => True

end Mark

/-- **The back-off**, in terms of the record of a connection. -/
structure Backoff (c : SrvConn) : Prop where
  /-- The index is one of the table. -/
  index : c.reestablishDelayIdx < reestablishDelayCount
  /-- A delay is armed for an index of the table, is not zero, and at most 16 seconds. -/
  armed : ∀ t i d, .delay t i d ∈ c.hist → i < reestablishDelayCount ∧ 0 < d ∧ d ≤ 16000
  /-- Between two consecutive attempts there is one delay, and they are apart what the table says
  for its index. -/
  spacing : ∀ p q r t₁ j₁ t₂ j₂,
    c.hist = p ++ .attempt t₁ j₁ :: (q ++ .attempt t₂ j₂ :: r) →
    (∀ k ∈ q, k.isAttempt = false ∧ k.isCommand = false) →
    ∃ t i d, q = [.delay t i d] ∧ t₁ < t₂ ∧ t₁ + 1000 * delayS i ≤ t₂
  /-- Between two consecutive delays there is one attempt.  The index is the next one if it failed
  within 32 seconds, and returns to 0 only if it did not. -/
  advance : ∀ p q r t i d t' i' d',
    c.hist = p ++ .delay t i d :: (q ++ .delay t' i' d' :: r) →
    (∀ k ∈ q, k.isDelay = false ∧ k.isCommand = false) →
    ∃ ta j, q = [.attempt ta j] ∧ ta ≤ t' ∧
      (t' ≤ ta + 32000 → i' = min (i + 1) (reestablishDelayCount - 1)) ∧
      (i' = 0 → ta + 32000 < t')
  /-- After a `SRVC_E_DISCONNECT` nothing is armed or attempted before a `SRVC_E_ESTABLISH`. -/
  stopped : ∀ p r t k, c.hist = p ++ .disconnect t :: k :: r → k.isCommand = true
  /-- While all attempts fail within 32 seconds the indices do not decrease; each is the next one
  of the table, up to the last. -/
  rising : ∀ p q r, c.hist = p ++ q ++ r → (∀ k ∈ q, k.isCommand = false) →
    (∀ p' ta j t i d r', q = p' ++ .attempt ta j :: .delay t i d :: r' → t ≤ ta + 32000) →
    (q.filterMap Mark.index).IsChain (fun i i' => i' = min (i + 1) (reestablishDelayCount - 1)) ∧
      (q.filterMap Mark.index).Pairwise (· ≤ ·)

/-! ### From neighbouring entries to the properties -/

theorem delayS_le (i : ℕ) : delayS i ≤ 16 := by
  unfold delayS
  by_cases h : i < kReestablishDelayS.length
  · have hall : ∀ x ∈ kReestablishDelayS, x ≤ 16 := by
      simp only [kReestablishDelayS, List.mem_append, List.mem_replicate, List.mem_singleton]
      omega
    rw [List.getD_eq_getElem _ _ h]
    exact hall _ (List.getElem_mem h)
  · rw [List.getD_eq_default _ _ (Nat.not_lt.mp h)]
    decide

theorem reestablishDelayCount_eq : reestablishDelayCount = 124 := by
  simp [reestablishDelayCount, kReestablishDelayS]

theorem SrvConn.le_nextIdx (i : ℕ) : i ≤ SrvConn.nextIdx i := by
  unfold SrvConn.nextIdx
  split_ifs <;> omega

theorem SrvConn.nextIdx_ne_zero (i : ℕ) : SrvConn.nextIdx i ≠ 0 := by
  unfold SrvConn.nextIdx
  rw [reestablishDelayCount_eq]
  split_ifs <;> omega

theorem SrvConn.nextIdx_eq {i : ℕ} (h : i < reestablishDelayCount) :
    SrvConn.nextIdx i = min (i + 1) (reestablishDelayCount - 1) := by
  unfold SrvConn.nextIdx
  split_ifs <;> omega

theorem SrvConn.nextIdx_lt {i : ℕ} (h : i < reestablishDelayCount) :
    SrvConn.nextIdx i < reestablishDelayCount := by
  unfold SrvConn.nextIdx
  split_ifs <;> omega

namespace Mark

variable {l p q r : List Mark}

theorem Follows.of_attempt {ta j : ℕ} {k : Mark} (h : Follows (.attempt ta j) k)
    (hk : k.isCommand = false) : ∃ t i d, k = .delay t i d := by
  cases k with
  | delay t i d => exact ⟨t, i, d, rfl⟩
  | attempt t' j' => exact absurd h id
  | establish t' => cases hk
  | disconnect t' => cases hk

theorem Follows.of_delay {t i d : ℕ} {k : Mark} (h : Follows (.delay t i d) k)
    (hk : k.isCommand = false) : ∃ ta j, k = .attempt ta j := by
  cases k with
  | attempt ta j => exact ⟨ta, j, rfl⟩
  | delay t' i' d' => exact absurd h id
  | establish t' => cases hk
  | disconnect t' => cases hk

theorem between_attempts {t₁ j₁ t₂ j₂ : ℕ}
    (h : List.IsChain Follows (.attempt t₁ j₁ :: (q ++ .attempt t₂ j₂ :: r)))
    (hq : ∀ k ∈ q, k.isAttempt = false ∧ k.isCommand = false) :
    ∃ t i d, q = [.delay t i d] ∧ Follows (.attempt t₁ j₁) (.delay t i d) ∧
      Follows (.delay t i d) (.attempt t₂ j₂) := by
  match q, h, hq with
  | [], h, _ => exact absurd h.rel id
  | [k], h, hq =>
      obtain ⟨t, i, d, rfl⟩ := h.rel.of_attempt (hq k List.mem_cons_self).2
      exact ⟨t, i, d, rfl, h.rel, h.tail.rel⟩
  | k :: k' :: _, h, hq =>
      obtain ⟨t, i, d, rfl⟩ := h.rel.of_attempt (hq k List.mem_cons_self).2
      have hk' := hq k' (List.mem_cons_of_mem _ List.mem_cons_self)
      obtain ⟨ta, j, rfl⟩ := h.tail.rel.of_delay hk'.2
      cases hk'.1

theorem between_delays {t i d t' i' d' : ℕ}
    (h : List.IsChain Follows (.delay t i d :: (q ++ .delay t' i' d' :: r)))
    (hq : ∀ k ∈ q, k.isDelay = false ∧ k.isCommand = false) :
    ∃ ta j, q = [.attempt ta j] ∧ Follows (.delay t i d) (.attempt ta j) ∧
      Follows (.attempt ta j) (.delay t' i' d') := by
  match q, h, hq with
  | [], h, _ => exact absurd h.rel id
  | [k], h, hq =>
      obtain ⟨ta, j, rfl⟩ := h.rel.of_delay (hq k List.mem_cons_self).2
      exact ⟨ta, j, rfl, h.rel, h.tail.rel⟩
  | k :: k' :: _, h, hq =>
      obtain ⟨ta, j, rfl⟩ := h.rel.of_delay (hq k List.mem_cons_self).2
      have hk' := hq k' (List.mem_cons_of_mem _ List.mem_cons_self)
      obtain ⟨t, i, d, rfl⟩ := h.tail.rel.of_attempt hk'.2
      cases hk'.1

/-- The indices in a stretch without commands in which all attempts fail soon. -/
theorem isChain_index (h : q.IsChain Follows) (hq : ∀ k ∈ q, k.isCommand = false)
    (hsoon : ∀ p' ta j t i d r', q = p' ++ .attempt ta j :: .delay t i d :: r' →
      t ≤ ta + resetMs) :
    (q.filterMap index).IsChain fun i i' => i' = SrvConn.nextIdx i := by
  induction q with
  | nil => exact .nil
  | cons k q ih =>
      have htail := ih h.tail (fun k' hk' => hq k' (List.mem_cons_of_mem _ hk'))
        fun p' ta j t i d r' e => hsoon (k :: p') ta j t i d r' (by rw [e]; rfl)
      cases k with
      | delay t i d =>
          refine List.IsChain.cons htail fun i' hi' => ?_
          match q, h, hq, hsoon, hi' with
          | [], _, _, _, hi' => cases hi'
          | [k'], h, hq, _, hi' =>
              obtain ⟨ta, j, rfl⟩ := h.rel.of_delay (hq k' (by simp))
              cases hi'
          | k' :: k'' :: q, h, hq, hsoon, hi' =>
              obtain ⟨ta, j, rfl⟩ := h.rel.of_delay (hq k' (by simp))
              obtain ⟨t', i'', d', rfl⟩ := h.tail.rel.of_attempt (hq k'' (by simp))
              obtain rfl : i'' = i' := Option.some.inj hi'
              have hle := hsoon [.delay t i d] ta j t' i'' d' q rfl
              have hj : j = SrvConn.nextIdx i := h.rel.2
              have hi : i'' = if ta + resetMs < t' then 0 else j := h.tail.rel.2.2
              rw [hi, if_neg (Nat.not_lt.mpr hle), hj]
      | _ => exact htail

section chain

variable {t t' i i' d d' : ℕ}

theorem spacing_of_chain (hb : ∀ k ∈ l, k.Bounded) (h : l.IsChain Follows) {t₁ j₁ t₂ j₂ : ℕ}
    (e : l = p ++ .attempt t₁ j₁ :: (q ++ .attempt t₂ j₂ :: r))
    (hq : ∀ k ∈ q, k.isAttempt = false ∧ k.isCommand = false) :
    ∃ t i d, q = [.delay t i d] ∧ t₁ < t₂ ∧ t₁ + 1000 * delayS i ≤ t₂ := by
  rw [e] at h hb
  obtain ⟨t, i, d, rfl, h₁, h₂⟩ := between_attempts h.right_of_append hq
  have hd : 0 < d := (hb (.delay t i d) (by simp)).2.1
  obtain ⟨hle, hk, _⟩ := h₁
  obtain ⟨hd', _⟩ := h₂
  exact ⟨t, i, d, rfl, by omega, by omega⟩

theorem advance_of_chain (hb : ∀ k ∈ l, k.Bounded) (h : l.IsChain Follows)
    (e : l = p ++ .delay t i d :: (q ++ .delay t' i' d' :: r))
    (hq : ∀ k ∈ q, k.isDelay = false ∧ k.isCommand = false) :
    ∃ ta j, q = [.attempt ta j] ∧ ta ≤ t' ∧
      (t' ≤ ta + 32000 → i' = min (i + 1) (reestablishDelayCount - 1)) ∧
      (i' = 0 → ta + 32000 < t') := by
  rw [e] at h hb
  obtain ⟨ta, j, rfl, h₁, h₂⟩ := between_delays h.right_of_append hq
  have hi : i < reestablishDelayCount := (hb (.delay t i d) (by simp)).1
  have hj : j = SrvConn.nextIdx i := h₁.2
  obtain ⟨hle, _, hi'⟩ := h₂
  rw [hj] at hi'
  refine ⟨ta, _, rfl, hle, fun hs => ?_, fun hz => ?_⟩
  · have hs' : ¬ta + resetMs < t' := by
      unfold resetMs
      omega
    rw [hi', if_neg hs', SrvConn.nextIdx_eq hi]
  · by_contra hs
    have hs' : ¬ta + resetMs < t' := by
      unfold resetMs
      omega
    rw [if_neg hs'] at hi'
    exact SrvConn.nextIdx_ne_zero i (hi'.symm.trans hz)

theorem stopped_of_chain (h : l.IsChain Follows) {k : Mark} (e : l = p ++ .disconnect t :: k :: r) :
    k.isCommand = true := by
  rw [e] at h
  have hf := h.right_of_append.rel
  cases k with
  | delay t' i d => exact absurd hf id
  | attempt t' j => exact absurd hf id
  | establish t' => rfl
  | disconnect t' => rfl

theorem rising_of_chain (hb : ∀ k ∈ l, k.Bounded) (h : l.IsChain Follows) (e : l = p ++ q ++ r)
    (hq : ∀ k ∈ q, k.isCommand = false)
    (hsoon : ∀ p' ta j t i d r', q = p' ++ .attempt ta j :: .delay t i d :: r' → t ≤ ta + 32000) :
    (q.filterMap index).IsChain (fun i i' => i' = min (i + 1) (reestablishDelayCount - 1)) ∧
      (q.filterMap index).Pairwise (· ≤ ·) := by
  have hc : q.IsChain Follows := h.infix ⟨p, r, e.symm⟩
  have hchain : (q.filterMap index).IsChain fun i i' => i' = SrvConn.nextIdx i :=
    isChain_index hc hq hsoon
  have hlt : ∀ i ∈ q.filterMap index, i < reestablishDelayCount := by
    intro i hi
    obtain ⟨k, hk, hki⟩ := List.mem_filterMap.mp hi
    have hkb := hb k (by rw [e]; simp [hk])
    cases k with
    | delay t i' d =>
        obtain rfl := Option.some.inj hki
        exact hkb.1
    | _ => cases hki
  have hle : (q.filterMap index).IsChain (· ≤ ·) :=
    hchain.imp fun {i i'} (e : i' = _) => e ▸ SrvConn.le_nextIdx i
  refine ⟨hchain.imp_of_mem_imp fun i i' hi _ (e : i' = _) => ?_, hle.pairwise⟩
  rw [e, SrvConn.nextIdx_eq (hlt i hi)]

end chain

end Mark

theorem Backoff.of_chain {c : SrvConn} (hidx : c.reestablishDelayIdx < reestablishDelayCount)
    (hb : ∀ k ∈ c.hist, k.Bounded) (h : c.hist.IsChain Mark.Follows) : Backoff c where
  index := hidx
  armed _ _ _ hm := hb _ hm
  spacing _ _ _ _ _ _ _ e hq := Mark.spacing_of_chain hb h e hq
  advance _ _ _ _ _ _ _ _ _ e hq := Mark.advance_of_chain hb h e hq
  stopped _ _ _ _ e := Mark.stopped_of_chain h e
  rising _ _ _ e hq hsoon := Mark.rising_of_chain hb h e hq hsoon

/-! ### The invariant -/

namespace SrvConn

open Host (usedIdx delayMs)

variable {notifies : Stream → Bool} {now : ℕ} {c : SrvConn}

theorem usedIdx_eq (now : ℕ) (c : SrvConn) : usedIdx now c =
    if c.reestablishLastMs + Mark.resetMs < now then 0 else c.reestablishDelayIdx := by
  have hlast : delayS (reestablishDelayCount - 1) = 16 := by
    rw [reestablishDelayCount_eq]
    simp [delayS, kReestablishDelayS]
  have hmax : (2 * max (max t1WaitClientConnRes t2Reconnect)
      (1000 * delayS (reestablishDelayCount - 1)) : ℕ) = Mark.resetMs := by
    rw [hlast]
    rfl
  unfold usedIdx
  simp only
  refine if_congr ?_ rfl rfl
  rw [← hmax]
  omega

theorem usedIdx_lt (h : c.reestablishDelayIdx < reestablishDelayCount) :
    usedIdx now c < reestablishDelayCount := by
  rw [usedIdx_eq]
  split_ifs
  · rw [reestablishDelayCount_eq]
    decide
  · exact h

/-- A delay makes up for what is missing since the last attempt. -/
theorem delayMs_spec (i : ℕ) (h : c.reestablishLastMs ≤ now) :
    c.reestablishLastMs + 1000 * delayS i ≤ now + delayMs now c i ∧ 0 < delayMs now c i ∧
      delayMs now c i ≤ 16000 := by
  have hle := delayS_le i
  unfold delayMs
  simp only
  split_ifs <;> omega

/-- The last entry of the record is the attempt that the connection is in. -/
structure Attempted (now : ℕ) (c : SrvConn) : Prop where
  last : c.hist.getLast? = some (.attempt c.reestablishLastMs c.reestablishDelayIdx)
  time : c.reestablishLastMs ≤ now

/-- The last entry of the record and the running timer, in every state. -/
def Latest (now : ℕ) (c : SrvConn) : Prop :=
  match c.fi.state with
  | .init => c.fi.timer = none
  | .reestablishDelay => ∃ due, c.fi.timer = some ⟨3, due⟩ ∧
      ((∃ t i d, c.hist.getLast? = some (.delay t i d) ∧ t + d ≤ due ∧
        c.reestablishDelayIdx = nextIdx i) ∨
      ((∃ t, c.hist.getLast? = some (.establish t)) ∧ c.reestablishDelayIdx = 0))
  | .reestablish => (∃ due, c.fi.timer = some ⟨2, due⟩) ∧ c.Attempted now
  | .established => (∀ t ∈ c.fi.timer, t.T = 1) ∧ c.Attempted now
  | .connected => c.fi.timer = none ∧ c.Attempted now

/-- The invariant of a connection. -/
structure Paced (now : ℕ) (c : SrvConn) : Prop where
  index : c.reestablishDelayIdx < reestablishDelayCount
  bounded : ∀ k ∈ c.hist, k.Bounded
  chain : c.hist.IsChain Mark.Follows
  latest : c.Latest now

theorem isChain_snoc {l : List Mark} {k : Mark} (h : l.IsChain Mark.Follows)
    (hk : ∀ k' ∈ l.getLast?, Mark.Follows k' k) : (l ++ [k]).IsChain Mark.Follows := by
  refine h.append (.singleton k) fun x hx y hy => ?_
  rw [List.head?_cons, Option.mem_some_iff] at hy
  exact hy ▸ hk x hx

theorem bounded_snoc {l : List Mark} {k : Mark} (h : ∀ k ∈ l, k.Bounded) (hk : k.Bounded) :
    ∀ k' ∈ l ++ [k], k'.Bounded := by
  intro k' hk'
  rcases List.mem_append.mp hk' with hk' | hk'
  · exact h k' hk'
  · rw [List.mem_singleton.mp hk']
    exact hk

theorem Paced.retry (hidx : c.reestablishDelayIdx < reestablishDelayCount)
    (hb : ∀ k ∈ c.hist, k.Bounded) (hc : c.hist.IsChain Mark.Follows)
    (hl : ∀ k ∈ c.hist.getLast?,
      Mark.Follows k (.delay now (usedIdx now c) (delayMs now c (usedIdx now c))))
    (hle : c.reestablishLastMs ≤ now) : Paced now (c.retry now) := by
  have hi : usedIdx now c < reestablishDelayCount := usedIdx_lt hidx
  obtain ⟨_, hpos, hmax⟩ := delayMs_spec (usedIdx now c) hle
  have hbound : Mark.Bounded (.delay now (usedIdx now c) (delayMs now c (usedIdx now c))) :=
    ⟨hi, hpos, hmax⟩
  generalize hd : delayMs now c (usedIdx now c) = d at hl hbound
  have hr : c.retry now = { c with
      fi := ⟨.reestablishDelay, some ⟨3, now + d⟩⟩
      conn := none
      reestablishDelayIdx := nextIdx (usedIdx now c)
      hist := c.hist ++ [.delay now (usedIdx now c) d] } := by rw [← hd]; rfl
  have hnext : nextIdx (usedIdx now c) < reestablishDelayCount := nextIdx_lt hi
  generalize hj : nextIdx (usedIdx now c) = j at hr hnext
  rw [hr]
  exact ⟨hnext, bounded_snoc hb hbound, isChain_snoc hc hl, _, rfl,
    .inl ⟨now, usedIdx now c, d, List.getLast?_concat, Nat.le_refl _, hj.symm⟩⟩

theorem Paced.fail (h : c.Paced now) (ha : c.Attempted now) : Paced now (c.retry now) := by
  refine .retry h.index h.bounded h.chain (fun k hk => ?_) ha.time
  rw [ha.last, Option.mem_some_iff] at hk
  subst hk
  exact ⟨ha.time, (delayMs_spec _ ha.time).1, usedIdx_eq now c⟩

theorem Paced.attempted (h : c.Paced now) (hs : c.fi.state ≠ .init)
    (hs' : c.fi.state ≠ .reestablishDelay) : c.Attempted now := by
  have hl := h.latest
  unfold Latest at hl
  cases hst : c.fi.state with
  | init => exact absurd hst hs
  | reestablishDelay => exact absurd hst hs'
  | reestablish => simp only [hst] at hl; exact hl.2
  | established => simp only [hst] at hl; exact hl.2
  | connected => simp only [hst] at hl; exact hl.2

theorem Paced.of_eq (h : c.Paced now) {c' : SrvConn} {t : ℕ} (hfi : c'.fi = c.fi)
    (hh : c'.hist = c.hist) (hi : c'.reestablishDelayIdx = c.reestablishDelayIdx)
    (hl : c'.reestablishLastMs = c.reestablishLastMs) (ht : now ≤ t) : c'.Paced t := by
  have hatt : c.Attempted now → c'.Attempted t := by
    rintro ⟨h₁, h₂⟩
    refine ⟨?_, ?_⟩
    · rw [hh, hi, hl]
      exact h₁
    · rw [hl]
      exact Nat.le_trans h₂ ht
  refine ⟨hi ▸ h.index, hh ▸ h.bounded, hh ▸ h.chain, ?_⟩
  have hlat := h.latest
  unfold Latest at hlat ⊢
  rw [hfi, hh, hi]
  cases hst : c.fi.state <;> simp only [hst] at hlat ⊢
  · exact hlat
  · exact ⟨hlat.1, hatt hlat.2⟩
  · exact ⟨hlat.1, hatt hlat.2⟩
  · exact hlat
  · exact ⟨hlat.1, hatt hlat.2⟩

theorem Paced.withConn (h : c.Paced now) (conn : Option Stream) :
    Paced now { c with conn := conn } := h.of_eq rfl rfl rfl rfl (Nat.le_refl _)

theorem Paced.ended (h : c.Paced now)
    (hs : c.fi.state = .established ∨ c.fi.state = .connected) : Paced now (c.retry now) := by
  refine h.fail (h.attempted ?_ ?_)
  · rcases hs with hs | hs <;> rw [hs] <;> decide
  · rcases hs with hs | hs <;> rw [hs] <;> decide

theorem Paced.down (h : c.Paced now) : Paced now (c.down now).1 :=
  down_rule (P := fun r => r.1.Paced now) h.ended fun _ => h

theorem Paced.notified (h : c.Paced now) (st : Stream) :
    Paced now (c.notified notifies now st).1 :=
  notified_rule (P := fun r => r.1.Paced now) h.ended h st

theorem Paced.close (h : c.Paced now) : Paced now (c.close notifies now).1 :=
  close_rule (P := fun r => r.1.Paced now) h.ended h.withConn

theorem Paced.establish (h : c.Paced now) :
    Paced now (c.react notifies now .establish).1 := by
  have hb : ∀ k ∈ c.hist ++ [.establish now], k.Bounded := bounded_snoc h.bounded trivial
  have hc : (c.hist ++ [Mark.establish now]).IsChain Mark.Follows :=
    isChain_snoc h.chain fun k _ => by cases k <;> trivial
  have hzero : ∀ c' : SrvConn, c'.reestablishDelayIdx = 0 → usedIdx now c' = 0 := by
    intro c' hc'
    rw [usedIdx_eq, hc']
    exact ite_self _
  have hpos : 0 < reestablishDelayCount := by
    rw [reestablishDelayCount_eq]
    decide
  simp only [react, reestablish]
  split_ifs with hst
  · rw [hzero _ rfl]
    have hl := h.latest
    unfold Latest at hl
    simp only [hst] at hl
    obtain ⟨due, htimer, _⟩ := hl
    refine ⟨hpos, hb, hc, ?_⟩
    unfold Latest
    simp only [hst]
    exact ⟨due, htimer, .inr ⟨⟨now, List.getLast?_concat⟩, trivial⟩⟩
  · refine .retry hpos hb hc (fun k hk => ?_) (Nat.zero_le _)
    rw [List.getLast?_concat, Option.mem_some_iff] at hk
    subst hk
    exact hzero _ rfl

theorem Paced.toInit {r : Reaction} (h : r.1.Paced now) : Paced now (toInit now r).1 :=
  ⟨h.index, bounded_snoc h.bounded trivial,
    isChain_snoc h.chain fun k _ => by cases k <;> trivial, rfl⟩

theorem Paced.react (h : c.Paced now) (e : ServerConnEvent) :
    Paced now (c.react notifies now e).1 := by
  cases e with
  | establish => exact h.establish
  | disconnect =>
      refine Paced.toInit ?_
      cases c.conn with
      | none => exact h
      | some st => exact (h.withConn none).notified st
  | tcpUp =>
      simp only [SrvConn.react]
      split_ifs with hst
      · have ha := h.attempted (by rw [hst]; decide) (by rw [hst]; decide)
        refine ⟨h.index, h.bounded, h.chain, fun t ht => ?_, ha.last, ha.time⟩
        rw [← Option.some.inj ht]
      · exact h
  | tcpDown => exact h.down
  | kaTimeout => exact h.down
  | clientConnRes res =>
      simp only [SrvConn.react]
      split_ifs with hst
      · exact h.close
      · have ha := h.attempted (by rw [hst]; decide) (by rw [hst]; decide)
        exact ⟨h.index, h.bounded, h.chain, rfl, ha.last, ha.time⟩
      · exact h
  | rsproTx pdu =>
      simp only [SrvConn.react]
      split_ifs
      · exact h.of_eq rfl rfl rfl rfl (Nat.le_refl _)
      · exact h

theorem Paced.expired (h : c.Paced now) {r : Reaction} (hr : c.expired notifies now = some r) :
    r.1.Paced now := by
  obtain ⟨t, ht, hdue, rfl⟩ := expired_eq hr
  have hlat := h.latest
  unfold Latest at hlat
  cases hst : c.fi.state with
  | init =>
      simp only [hst] at hlat
      rw [hlat] at ht
      cases ht
  | connected =>
      simp only [hst] at hlat
      rw [hlat.1] at ht
      cases ht
  | reestablish =>
      simp only [hst] at hlat
      obtain ⟨⟨due, htimer⟩, ha⟩ := hlat
      obtain rfl := Option.some.inj (ht.symm.trans htimer)
      simp only [timeout, SrvConn.reestablish, hst]
      rw [if_neg (by decide)]
      refine .retry h.index h.bounded h.chain (fun k hk => ?_) ha.time
      have hk' : k ∈ c.hist.getLast? := hk
      rw [ha.last, Option.mem_some_iff] at hk'
      subst hk'
      exact ⟨ha.time, (delayMs_spec _ ha.time).1, usedIdx_eq now _⟩
  | established =>
      simp only [hst] at hlat
      obtain ⟨hT, ha⟩ := hlat
      rw [hT t ht]
      refine Paced.close ⟨h.index, h.bounded, h.chain, ?_⟩
      unfold Latest
      simp only [hst]
      refine ⟨fun t hnone => ?_, ha.last, ha.time⟩
      cases hnone
  | reestablishDelay =>
      simp only [hst] at hlat
      obtain ⟨due, htimer, hlast⟩ := hlat
      obtain rfl := Option.some.inj (ht.symm.trans htimer)
      simp only [timeout, hst, if_true]
      refine ⟨h.index, bounded_snoc h.bounded trivial, isChain_snoc h.chain fun k hk => ?_,
        ⟨_, rfl⟩, List.getLast?_concat, Nat.le_refl _⟩
      rcases hlast with ⟨t, i, d, hl, hd, hidx⟩ | ⟨⟨t, hl⟩, hidx⟩
      · rw [hl, Option.mem_some_iff] at hk
        subst hk
        exact ⟨Nat.le_trans hd hdue, hidx⟩
      · rw [hl, Option.mem_some_iff] at hk
        subst hk
        exact hidx

/-- What an input does. -/
def outcome (notifies : Stream → Bool) (now : ℕ) (c : SrvConn) : SrvcInput → Option Reaction
  | .establish => some (c.react notifies now .establish)
  | .disconnect => some (c.react notifies now .disconnect)
  | .tcpUp =>
      some (react notifies now { c with conn := c.conn.map fun _ => .connected } .tcpUp)
  | .tcpDown =>
      some (react notifies now { c with conn := c.conn.map fun _ => .closed } .tcpDown)
  | .kaTimeout => some (c.react notifies now .kaTimeout)
  | .connRes result => some (c.react notifies now (.clientConnRes result))
  | .tx pdu => some (c.react notifies now (.rsproTx pdu))
  | .expiry => c.expired notifies now

/-- The step lemma. -/
theorem Paced.outcome (h : c.Paced now) {e : SrvcInput} {r : Reaction}
    (hr : c.outcome notifies now e = some r) : r.1.Paced now := by
  cases e with
  | expiry => exact h.expired hr
  | tcpUp => exact Option.some.inj hr ▸ (h.withConn _).react .tcpUp
  | tcpDown => exact Option.some.inj hr ▸ (h.withConn _).react .tcpDown
  | _ => exact Option.some.inj hr ▸ h.react _

/-! ### Timers that expire in time -/

/-- The timers that bound an attempt: T2 for the stream, then T1 for the response. -/
def Swift (c : SrvConn) : Prop :=
  match c.fi.state with
  | .reestablish => c.conn.isSome = true ∧ ∃ due, c.fi.timer = some ⟨2, due⟩ ∧
      due ≤ c.reestablishLastMs + t2Reconnect
  | .established => c.conn = some .connected ∧ ∃ due, c.fi.timer = some ⟨1, due⟩ ∧
      due ≤ c.reestablishLastMs + (t2Reconnect + t1WaitClientConnRes)
  | _ => True

theorem swift_of_state (h : c.fi.state ≠ .reestablish) (h' : c.fi.state ≠ .established) :
    c.Swift := by
  unfold Swift
  cases hst : c.fi.state with
  | reestablish => exact absurd hst h
  | established => exact absurd hst h'
  | _ => trivial

theorem swift_reestablish : Swift (c.reestablish now).1 := by
  unfold reestablish
  split_ifs with hst
  · exact swift_of_state (by rw [hst]; decide) (by rw [hst]; decide)
  · trivial

theorem swift_down (h : c.fi.state ≠ .established → c.Swift) : Swift (c.down now).1 :=
  down_rule (P := fun r => r.1.Swift) (fun _ => trivial) h

theorem swift_close (hn : notifies .connected = true)
    (h : c.fi.state = .established → c.conn = some .connected)
    (hr : c.fi.state ≠ .reestablish) : Swift (c.close notifies now).1 := by
  have hsame : ∀ conn, c.fi.state ≠ .established → Swift { c with conn := conn } :=
    fun conn hst => swift_of_state hr hst
  unfold close
  cases hc : c.conn with
  | none =>
      refine swift_of_state hr fun hst => ?_
      rw [h hst] at hc
      cases hc
  | some st =>
      simp only [notified]
      split_ifs with hno
      · exact swift_down (hsame _)
      · refine swift_of_state hr fun hst => ?_
        rw [h hst] at hc
        obtain rfl := Option.some.inj hc
        exact hno ⟨by decide, hn⟩

theorem swift_timeout (hn : notifies .connected = true) (T : ℕ)
    (hr : c.fi.state = .reestablish → T = 2)
    (he : c.fi.state = .established → T = 1 ∧ c.conn = some .connected) :
    Swift (c.timeout notifies now T).1 := by
  by_cases hre : c.fi.state = .reestablish
  · rw [hr hre]
    exact swift_reestablish
  by_cases hes : c.fi.state = .established
  · rw [(he hes).1]
    exact swift_close hn (fun hst => (he hst).2) hre
  unfold timeout
  split
  · split_ifs
    · exact ⟨rfl, _, rfl, Nat.le_refl _⟩
    · exact swift_of_state hre hes
  · exact swift_reestablish
  · exact swift_close hn (fun hst => absurd hst hes) hre
  · exact swift_of_state hre hes

theorem Swift.withConn (h : c.Swift) {conn : Option Stream}
    (hs : c.conn.isSome = true → conn.isSome = true)
    (he : c.fi.state = .established → conn = some .connected) : Swift { c with conn := conn } := by
  unfold Swift at h ⊢
  cases hst : c.fi.state with
  | reestablish =>
      simp only [hst] at h ⊢
      exact ⟨hs h.1, h.2⟩
  | established =>
      simp only [hst] at h ⊢
      exact ⟨he hst, h.2⟩
  | _ => trivial

theorem Swift.outcome (h : c.Swift) (hn : notifies .connected = true)
    (hp : ∀ t ∈ c.fi.timer, now ≤ t.due) {e : SrvcInput} {r : Reaction}
    (hr : c.outcome notifies now e = some r) : r.1.Swift := by
  have hconn : c.fi.state = .established → c.conn = some .connected := by
    intro hst
    unfold Swift at h
    simp only [hst] at h
    exact h.1
  cases e with
  | establish => exact Option.some.inj hr ▸ swift_reestablish
  | disconnect =>
      obtain rfl := Option.some.inj hr
      trivial
  | tcpUp =>
      obtain rfl := Option.some.inj hr
      simp only [SrvConn.react]
      split_ifs with hst
      · unfold Swift at h
        simp only [hst] at h
        obtain ⟨hsome, due, ht, hdue⟩ := h
        have hnow : now ≤ due := hp _ ht
        obtain ⟨st, hst'⟩ := Option.isSome_iff_exists.mp hsome
        refine ⟨by simp only [hst', Option.map_some], _, rfl, ?_⟩
        simp only
        omega
      · refine h.withConn (fun hs => by rwa [Option.isSome_map]) fun hst' => ?_
        rw [hconn hst']
        rfl
  | tcpDown =>
      obtain rfl := Option.some.inj hr
      refine swift_down fun hst => ?_
      exact h.withConn (fun hs => by rwa [Option.isSome_map]) fun hst' => absurd hst' hst
  | kaTimeout => exact Option.some.inj hr ▸ swift_down fun _ => h
  | connRes res =>
      obtain rfl := Option.some.inj hr
      simp only [SrvConn.react]
      split_ifs with hst
      · exact swift_close hn hconn (by rw [hst]; decide)
      · trivial
      · exact h
  | tx pdu =>
      obtain rfl := Option.some.inj hr
      simp only [SrvConn.react]
      split_ifs with hst
      · exact swift_of_state (by rw [hst]; decide) (by rw [hst]; decide)
      · exact h
  | expiry =>
      obtain ⟨t, ht, _, rfl⟩ := expired_eq hr
      unfold Swift at h
      refine swift_timeout hn t.T (fun hst => ?_) fun hst => ⟨?_, hconn hst⟩
      · change c.fi.state = _ at hst
        simp only [hst, ht] at h
        obtain ⟨_, due, htimer, _⟩ := h
        rw [Option.some.inj htimer]
      · change c.fi.state = _ at hst
        simp only [hst, ht] at h
        obtain ⟨_, due, htimer, _⟩ := h
        rw [Option.some.inj htimer]

end SrvConn

namespace Solo

variable {notifies : Stream → Bool} {s s' : Solo} {l : Label}

theorem put_eq (r : Reaction) (s : Solo) : (host notifies).put r s = ⟨r.1, s.now⟩ := by
  have hp : ∀ es : List ParentEvent, (host notifies).parents es s = s := by
    intro es
    induction es with
    | nil => rfl
    | cons e es ih => exact ih
  unfold Host.put
  rw [hp]
  rfl

theorem dispatch_solo (e : ServerConnEvent) (c : SrvConn) (t : ℕ) :
    (host notifies).dispatch e ⟨c, t⟩ = ⟨(c.react notifies t e).1, t⟩ := by
  rw [(lawful notifies).dispatch_eq, put_eq]
  rfl

theorem step_iff : (lts notifies).step s l s' ↔ s.now ≤ l.time ∧
    ∃ r, s.srvc.outcome notifies l.time l.input = some r ∧ s' = ⟨r.1, l.time⟩ := by
  obtain ⟨t, e⟩ := l
  have hin : input notifies ⟨s.srvc, t⟩ e =
      (s.srvc.outcome notifies t e).map fun r => ⟨r.1, t⟩ := by
    cases e with
    | expiry =>
        show (host notifies).expire ⟨s.srvc, t⟩ = _
        rw [(lawful notifies).expire_eq]
        simp only [put_eq]
        rfl
    | _ => exact congrArg some (dispatch_solo _ _ _)
  show (if s.now ≤ t then input notifies ⟨s.srvc, t⟩ e else none) = some s' ↔ _
  rw [hin]
  split_ifs with ht
  · rw [Option.map_eq_some_iff]
    exact ⟨fun ⟨r, hr, hs⟩ => ⟨ht, r, hr, hs.symm⟩, fun ⟨_, r, hr, hs⟩ => ⟨r, hr, hs.symm⟩⟩
  · exact ⟨nofun, fun h => absurd h.1 ht⟩

theorem reach_paced {C : Solo → Label → Prop} (h : (lts notifies).Reach C s) :
    s.srvc.Paced s.now := by
  refine h.invariant (I := fun s => s.srvc.Paced s.now) ?_ fun s l s' hi _ hst => ?_
  · rintro s ⟨hfi, hconn, hidx, hlast, hhist⟩
    refine ⟨?_, ?_, ?_, ?_⟩
    · rw [hidx, reestablishDelayCount_eq]
      decide
    · rw [hhist]
      nofun
    · rw [hhist]
      exact .nil
    · unfold SrvConn.Latest
      rw [hfi]
  · obtain ⟨ht, r, hr, rfl⟩ := step_iff.mp hst
    exact (hi.of_eq rfl rfl rfl rfl ht).outcome hr

/-- In a run without late timers, a timer ends every attempt within 20 seconds of its start,
unless a response to the connect request has come. -/
theorem reach_swift (hn : notifies .connected = true) (h : (lts notifies).Reach Prompt s) :
    s.srvc.Swift := by
  refine h.invariant (I := fun s => s.srvc.Swift) ?_ fun s l s' hi hp hst => ?_
  · rintro s ⟨hfi, _⟩
    unfold SrvConn.Swift
    rw [hfi]
    trivial
  · obtain ⟨ht, r, hr, rfl⟩ := step_iff.mp hst
    exact hi.outcome hn hp hr

/-- **The back-off holds in every run**, and in a run without late timers an attempt that gets no
response to its connect request is ended by a timer within 20 seconds of its start. -/
theorem reach_backoff (notifies : Stream → Bool) (s : Solo) :
    ((lts notifies).Reach Transition.Lts.Any s → Backoff s.srvc) ∧
      (notifies .connected = true → (lts notifies).Reach Prompt s →
        s.srvc.fi.state = .reestablish ∨ s.srvc.fi.state = .established →
        ∃ t, s.srvc.fi.timer = some t ∧ t.due ≤ s.srvc.reestablishLastMs + 20000) := by
  refine ⟨fun h => ?_, fun hn h hst => ?_⟩
  · have hp := reach_paced h
    exact .of_chain hp.index hp.bounded hp.chain
  · have hs := reach_swift hn h
    unfold SrvConn.Swift at hs
    rcases hst with hst | hst
    · simp only [hst] at hs
      obtain ⟨_, due, ht, hdue⟩ := hs
      exact ⟨_, ht, Nat.le_trans hdue (Nat.add_le_add_left (by decide) _)⟩
    · simp only [hst] at hs
      obtain ⟨_, due, ht, hdue⟩ := hs
      exact ⟨_, ht, hdue⟩

instance (s : Solo) (l : Label) : Decidable (Prompt s l) :=
  inferInstanceAs (Decidable (∀ t ∈ s.srvc.fi.timer, l.time ≤ t.due))

/-- The connection of a client after start-up. -/
def started : Solo where
  srvc :=
    { fi := ⟨.init, none⟩
      conn := none
      reestablishDelayIdx := 0
      reestablishLastMs := 0
      ownCompId := .remsimClient
      clslot := none
      serverHost := 1
      serverPort := 9998
      bankId := 0
      numSlots := 0
      sent := []
      hist := [] }
  now := 0

/-- Two attempts fail, the first without a stream, the second without a response; then the stream
is up again. -/
def failingRun : List Label :=
  [⟨50, .establish⟩, ⟨51, .expiry⟩, ⟨60, .tcpDown⟩, ⟨10051, .expiry⟩, ⟨10052, .expiry⟩,
    ⟨10100, .tcpUp⟩, ⟨20100, .expiry⟩, ⟨20101, .expiry⟩, ⟨20200, .tcpUp⟩]

theorem failingRun_backoff :
    (Transition.after (next fun _ => true) started failingRun).srvc.hist =
      [.establish 50, .delay 50 0 1, .attempt 51 1, .delay 10051 1 1, .attempt 10052 2,
        .delay 20100 2 1, .attempt 20101 3] ∧
      Backoff (Transition.after (next fun _ => true) started failingRun).srvc ∧
      ∃ t, (Transition.after (next fun _ => true) started failingRun).srvc.fi.timer = some t ∧
        t.due ≤ (Transition.after (next fun _ => true) started failingRun).srvc.reestablishLastMs +
          20000 := by
  have hinit : Initial started := ⟨rfl, rfl, rfl, rfl, rfl⟩
  have hrun : (Transition.exec (next fun _ => true) started failingRun).isSome = true := by
    decide +kernel
  obtain ⟨h₁, h₂⟩ := reach_backoff (fun _ => true)
    (Transition.after (next fun _ => true) started failingRun)
  refine ⟨by decide +kernel, h₁ (Transition.reach_after hinit hrun (by decide +kernel)),
    h₂ rfl (Transition.reach_after hinit hrun (by decide +kernel)) (.inr (by decide +kernel))⟩

end Solo
end Remsim
