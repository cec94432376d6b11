import Mathlib

/-! # Round robin

A queue is served in turn: the first element that is ready is picked, and the next pick starts with
the element after it (`pick`).  A pick rotates the ready elements by one (`pick_spec`), so as many
picks as there are ready elements pick each of them once, in their order (`picks_all`). -/

namespace RoundRobin

variable {α : Type*} (ready : α → Bool)

/-- The first ready element, and the queue from the element after it on. -/
def pick (l : List α) : Option α × List α :=
  match l.findIdx? ready with
  | none => (none, l)
  | some k => (l[k]?, l.rotate (k + 1))

/-- The elements of `k` picks, one after the other. -/
def picks : ℕ → List α → List (Option α)
  | 0, _ => []
  | k + 1, l => (pick ready l).1 :: picks k (pick ready l).2

variable {ready}

theorem split_of_findIdx? {l : List α} {k : ℕ} (h : l.findIdx? ready = some k) :
    ∃ xs a ys, l = xs ++ a :: ys ∧ xs.length = k ∧ ready a = true ∧ xs.filter ready = [] := by
  obtain ⟨hk, ha, hbefore⟩ := List.findIdx?_eq_some_iff_getElem.mp h
  refine ⟨l.take k, l[k], l.drop (k + 1), ?_, ?_, ha, ?_⟩
  · rw [List.getElem_cons_drop, List.take_append_drop]
  · rw [List.length_take]
    omega
  · rw [List.filter_eq_nil_iff]
    intro x hx
    obtain ⟨j, hj, rfl⟩ := List.mem_iff_getElem.mp hx
    rw [List.length_take] at hj
    rw [List.getElem_take]
    exact hbefore j (by omega)

/-- **A pick takes the first of the ready elements**, which becomes the last of them. -/
theorem pick_spec {l : List α} {a : α} {t : List α} (h : l.filter ready = a :: t) :
    (pick ready l).1 = some a ∧ (pick ready l).2.filter ready = t ++ [a] := by
  cases hf : l.findIdx? ready with
  | none =>
      have hnil : l.filter ready = [] := by
        rw [List.filter_eq_nil_iff]
        intro x hx hr
        have hno := List.findIdx?_eq_none_iff.mp hf x hx
        rw [hr] at hno
        cases hno
      rw [hnil] at h
      cases h
  | some k =>
      obtain ⟨xs, b, ys, rfl, hlen, hb, hxs⟩ := split_of_findIdx? hf
      have hget : (xs ++ b :: ys)[k]? = some b := by
        rw [← hlen, List.getElem?_append_right (Nat.le_refl _), Nat.sub_self]
        rfl
      have hrot : (xs ++ b :: ys).rotate (k + 1) = ys ++ (xs ++ [b]) := by
        have happ : xs ++ b :: ys = (xs ++ [b]) ++ ys := by
          rw [List.append_assoc]
          rfl
        have hk : k + 1 = (xs ++ [b]).length := by
          rw [List.length_append, hlen]
          rfl
        rw [happ, hk]
        exact List.rotate_append_length_eq _ _
      rw [List.filter_append, hxs, List.nil_append, List.filter_cons_of_pos hb] at h
      obtain ⟨rfl, rfl⟩ := List.cons.inj h
      unfold pick
      rw [hf]
      refine ⟨hget, ?_⟩
      show ((xs ++ b :: ys).rotate (k + 1)).filter ready = _
      rw [hrot, List.filter_append, List.filter_append, hxs, List.nil_append,
        List.filter_cons_of_pos hb]
      rfl

theorem picks_take : ∀ (k : ℕ) (l : List α), k ≤ (l.filter ready).length →
    picks ready k l = ((l.filter ready).take k).map some
  | 0, _, _ => rfl
  | k + 1, l, hk => by
      cases hl : l.filter ready with
      | nil =>
          rw [hl] at hk
          exact absurd hk (Nat.not_succ_le_zero k)
      | cons a t =>
          obtain ⟨ha, hrest⟩ := pick_spec hl
          rw [hl, List.length_cons] at hk
          have ht : k ≤ t.length := by omega
          have ih := picks_take k (pick ready l).2 (by
            rw [hrest, List.length_append]
            omega)
          rw [hrest, List.take_append_of_le_length ht] at ih
          simp only [picks]
          rw [ha, ih]
          rfl

/-- **A whole round picks every ready element once**, in the order of the queue. -/
theorem picks_all (l : List α) :
    picks ready (l.countP ready) l = (l.filter ready).map some := by
  rw [List.countP_eq_length_filter, picks_take _ _ (Nat.le_refl _), List.take_length]

/-- In a queue without repetitions, a ready element is picked once in a round. -/
theorem count_picks_all [DecidableEq α] {l : List α} (hl : l.Nodup) {a : α} (ha : a ∈ l)
    (hr : ready a = true) : (picks ready (l.countP ready) l).count (some a) = 1 := by
  rw [picks_all, List.count_map_of_injective _ _ (Option.some_injective α)]
  exact List.count_eq_one_of_mem (hl.filter _) (List.mem_filter.mpr ⟨ha, hr⟩)

end RoundRobin
