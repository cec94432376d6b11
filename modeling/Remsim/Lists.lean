import Mathlib

/-! # Removal from lists and updates of partial maps

Lemmas about `filter (· ≠ a)` and `filter (· ∉ l)`, which model the removal of nodes from linked
lists, about elements that occur once, about partial maps with one entry changed, and about lists
whose elements are all converted by a partial function. -/

namespace ListLib

variable {α : Type*} [DecidableEq α]

theorem filter_not_mem_cons (a : α) (as l : List α) :
    l.filter (· ∉ a :: as) = (l.filter (· ≠ a)).filter (· ∉ as) := by
  rw [List.filter_filter]
  exact List.filter_congr fun x _ => by simp [Bool.and_comm]

theorem filter_not_mem_self (l : List α) : l.filter (· ∉ l) = [] := by
  rw [List.filter_eq_nil_iff]
  intro a ha
  simp [ha]

theorem filter_not_mem_of_disjoint {l as : List α} (h : ∀ a ∈ l, a ∉ as) :
    l.filter (· ∉ as) = l := by
  rw [List.filter_eq_self]
  intro a ha
  simpa using h a ha

theorem filter_ne_of_not_mem {l : List α} {a : α} (h : a ∉ l) : l.filter (· ≠ a) = l := by
  rw [List.filter_eq_self]
  intro x hx
  simpa using fun e : x = a => h (e ▸ hx)

theorem filter_ne_head {l : List α} {a : α} (h : (a :: l).Nodup) :
    (a :: l).filter (· ≠ a) = l := by
  rw [List.filter_cons_of_neg (by simp)]
  exact filter_ne_of_not_mem (List.nodup_cons.mp h).1

theorem find?_congr {γ : Type*} {p q : γ → Bool} {l : List γ} (h : ∀ a ∈ l, p a = q a) :
    l.find? p = l.find? q := by
  induction l with
  | nil => rfl
  | cons a l ih =>
      rw [List.find?_cons, List.find?_cons, h a List.mem_cons_self,
        ih fun b hb => h b (List.mem_cons_of_mem _ hb)]

/-- A loop whose body keeps a projection of the state keeps it. -/
theorem foldl_fixed {σ γ ι : Type*} (p : σ → γ) (f : σ → ι → σ) (h : ∀ s i, p (f s i) = p s) :
    ∀ (l : List ι) (s : σ), p (l.foldl f s) = p s
  | [], _ => rfl
  | i :: l, s => (foldl_fixed p f h l (f s i)).trans (h s i)

theorem count_le_one_iff (a : α) (l : List α) :
    l.count a ≤ 1 ↔ ∀ pre post, l = pre ++ a :: post → a ∉ pre := by
  constructor
  · rintro h pre post rfl
    rw [List.count_append, List.count_cons_self] at h
    exact List.count_eq_zero.mp (by omega)
  · intro h
    by_cases ha : a ∈ l
    · obtain ⟨as, bs, rfl, hnot⟩ := List.eq_append_cons_of_mem ha
      have hbs : a ∉ bs := by
        intro hb
        obtain ⟨cs, ds, rfl, _⟩ := List.eq_append_cons_of_mem hb
        refine h (as ++ a :: cs) ds ?_ (List.mem_append_right _ List.mem_cons_self)
        rw [List.append_assoc, List.cons_append]
      have has : as.count a = 0 := List.count_eq_zero.mpr hnot
      have hbs' : bs.count a = 0 := List.count_eq_zero.mpr hbs
      simp only [List.count_append, List.count_cons_self]
      omega
    · have hl : l.count a = 0 := List.count_eq_zero.mpr ha
      omega

/-! ### Partial maps -/

variable {β : Type*} {f : α → Option β} {a c : α} {v q : β}

theorem bind_congr_map {γ δ : Type*} {g : γ → Option δ} {o o' : Option γ}
    (h : o.map g = o'.map g) : o.bind g = o'.bind g := by
  cases o <;> cases o' <;> simp_all

theorem update_some_eq_some (h : Function.update f c (some v) a = some q) :
    (a = c ∧ q = v) ∨ (a ≠ c ∧ f a = some q) := by
  by_cases e : a = c
  · subst e
    rw [Function.update_self] at h
    exact .inl ⟨rfl, (Option.some.inj h).symm⟩
  · rw [Function.update_of_ne e] at h
    exact .inr ⟨e, h⟩

theorem update_none_eq_some (h : Function.update f c none a = some q) :
    a ≠ c ∧ f a = some q := by
  by_cases e : a = c
  · subst e
    rw [Function.update_self] at h
    cases h
  · rw [Function.update_of_ne e] at h
    exact ⟨e, h⟩

/-! ### The end of a list -/

theorem append_singleton_eq_iff {α : Type*} {l pre post : List α} {x e : α} :
    l ++ [x] = pre ++ e :: post ↔
      (post = [] ∧ e = x ∧ l = pre) ∨ ∃ rest, post = rest ++ [x] ∧ l = pre ++ e :: rest := by
  constructor
  · intro h
    rcases List.eq_nil_or_concat post with rfl | ⟨rest, y, rfl⟩
    · obtain ⟨hpre, he⟩ := List.append_inj' h rfl
      exact .inl ⟨rfl, (List.cons.inj he).1.symm, hpre⟩
    · rw [List.concat_eq_append, ← List.cons_append, ← List.append_assoc] at h
      obtain ⟨hpre, hy⟩ := List.append_inj' h rfl
      rw [← (List.cons.inj hy).1]
      exact .inr ⟨rest, List.concat_eq_append, hpre⟩
  · rintro (⟨rfl, rfl, rfl⟩ | ⟨rest, rfl, rfl⟩)
    · rfl
    · simp

theorem getLast?_getD_append {α : Type*} (l l' : List α) (d : α) :
    (l ++ l').getLast?.getD d = l'.getLast?.getD (l.getLast?.getD d) := by
  rw [List.getLast?_append]
  cases l'.getLast? <;> rfl

theorem getLast?_getD_eq_iff {α : Type*} (l : List α) (d d' : α) :
    l.getLast?.getD d = l.getLast?.getD d' ↔ d = d' ∨ l ≠ [] := by
  cases hl : l.getLast? with
  | none => simp [List.getLast?_eq_none_iff.mp hl]
  | some v =>
      refine iff_of_true rfl (.inr fun hn => ?_)
      rw [hn] at hl
      cases hl

/-! ### Partial functions on lists, lists of bounded length -/

theorem map_some_of_mapM {γ δ : Type*} {f : γ → Option δ} {l : List γ} {ys : List δ}
    (h : l.mapM f = some ys) : ys.map some = l.map f := by
  induction l generalizing ys with
  | nil =>
      rw [List.mapM_nil] at h
      obtain rfl := Option.some.inj h
      rfl
  | cons x l ih =>
      rw [List.mapM_cons] at h
      obtain ⟨y, hy, h⟩ := Option.bind_eq_some_iff.mp h
      obtain ⟨zs, hzs, h⟩ := Option.bind_eq_some_iff.mp h
      obtain rfl := Option.some.inj h
      rw [List.map_cons, List.map_cons, ih hzs, hy]

theorem exists_of_mapM {γ δ : Type*} {f : γ → Option δ} {l : List γ} {ys : List δ}
    (h : l.mapM f = some ys) {x : γ} (hx : x ∈ l) : ∃ y ∈ ys, f x = some y := by
  have hmem := List.mem_map_of_mem (f := f) hx
  rw [← map_some_of_mapM h] at hmem
  obtain ⟨y, hy, heq⟩ := List.mem_map.mp hmem
  exact ⟨y, hy, heq.symm⟩

theorem exists_of_mem_mapM {γ δ : Type*} {f : γ → Option δ} {l : List γ} {ys : List δ}
    (h : l.mapM f = some ys) {y : δ} (hy : y ∈ ys) : ∃ x ∈ l, f x = some y := by
  have hmem := List.mem_map_of_mem (f := some) hy
  rw [map_some_of_mapM h] at hmem
  exact List.mem_map.mp hmem

theorem mapM_eq_some_of_map {γ δ : Type*} {f : γ → Option δ} {l : List γ} {ys : List δ}
    (h : l.map f = ys.map some) : l.mapM f = some ys := by
  induction l generalizing ys with
  | nil =>
      obtain rfl : ys = [] := List.map_eq_nil_iff.mp h.symm
      rfl
  | cons x l ih =>
      cases ys with
      | nil => cases h
      | cons y ys =>
          obtain ⟨hy, hys⟩ := List.cons.inj h
          rw [List.mapM_cons, hy, ih hys]
          rfl

theorem mapM_eq_none_iff {γ δ : Type*} {f : γ → Option δ} {l : List γ} :
    l.mapM f = none ↔ ∃ x ∈ l, f x = none := by
  induction l with
  | nil =>
      rw [List.mapM_nil]
      exact ⟨nofun, nofun⟩
  | cons x l ih =>
      rw [List.mapM_cons, List.exists_mem_cons_iff]
      cases hx : f x with
      | none => exact ⟨fun _ => .inl rfl, fun _ => rfl⟩
      | some y =>
          cases hl : l.mapM f with
          | none => exact ⟨fun _ => .inr (ih.mp hl), fun _ => rfl⟩
          | some ys =>
              refine ⟨nofun, ?_⟩
              rintro (h | h)
              · cases h
              · rw [ih.mpr h] at hl
                cases hl

/-- The members of a list and what a partial function makes of them, one by one. -/
theorem forall₂_of_mapM {γ δ : Type*} {f : γ → Option δ} {l : List γ} {ys : List δ}
    (h : l.mapM f = some ys) : List.Forall₂ (fun x y => x ∈ l ∧ f x = some y) l ys := by
  refine (List.forall₂_and_left l ys).mpr ⟨fun _ hx => hx, ?_⟩
  have heq : List.Forall₂ Eq (l.map f) (ys.map some) := by
    rw [map_some_of_mapM h]
    exact List.forall₂_refl _
  exact List.forall₂_map_right_iff.mp (List.forall₂_map_left_iff.mp heq)

theorem exists_right_of_forall₂ {γ δ : Type*} {R : γ → δ → Prop} {l : List γ} {ys : List δ}
    (h : List.Forall₂ R l ys) {x : γ} (hx : x ∈ l) : ∃ y ∈ ys, R x y := by
  induction h with
  | nil => cases hx
  | @cons a b l ys hab hrest ih =>
      rcases List.mem_cons.mp hx with rfl | hx
      · exact ⟨b, List.mem_cons_self, hab⟩
      · obtain ⟨y, hy, hxy⟩ := ih hx
        exact ⟨y, List.mem_cons_of_mem _ hy, hxy⟩

/-- No two of a list have the same `g` if that tells what they stand for. -/
theorem nodup_map_of_forall₂ {γ δ ε : Type*} {R : γ → δ → Prop} {g : δ → ε} {l : List γ}
    {ys : List δ} (h : List.Forall₂ R l ys) (hl : l.Nodup)
    (hg : ∀ {x x' y y'}, R x y → R x' y' → g y = g y' → x = x') : (ys.map g).Nodup := by
  induction h with
  | nil => exact List.nodup_nil
  | @cons x y l ys hxy hrest ih =>
      obtain ⟨hx, hl⟩ := List.nodup_cons.mp hl
      refine List.nodup_cons.mpr ⟨fun hm => ?_, ih hl⟩
      obtain ⟨y', hy', he⟩ := List.mem_map.mp hm
      obtain ⟨x', hx', hxy'⟩ := exists_right_of_forall₂ hrest.flip hy'
      exact hx (hg hxy hxy' he.symm ▸ hx')

theorem length_filterMap_le {γ δ : Type*} {f g : γ → Option δ} {l : List γ}
    (h : ∀ x ∈ l, ∀ y, f x = some y → g x = some y) :
    (l.filterMap f).length ≤ (l.filterMap g).length := by
  induction l with
  | nil => exact Nat.le_refl _
  | cons x l ih =>
      have ih := ih fun z hz => h z (List.mem_cons_of_mem x hz)
      cases hf : f x with
      | none =>
          rw [List.filterMap_cons_none hf]
          exact ih.trans (List.sublist_cons_self x l |>.filterMap g).length_le
      | some y =>
          rw [List.filterMap_cons_some hf,
            List.filterMap_cons_some (h x List.mem_cons_self y hf), List.length_cons,
            List.length_cons]
          omega

/-- Of two partial functions of which one extends the other, the lists agree only when the
functions do. -/
theorem filterMap_eq_iff {γ δ : Type*} {f g : γ → Option δ} {l : List γ}
    (h : ∀ x ∈ l, ∀ y, f x = some y → g x = some y) :
    l.filterMap f = l.filterMap g ↔ ∀ x ∈ l, f x = g x := by
  refine ⟨fun heq => ?_, List.filterMap_congr⟩
  induction l with
  | nil => exact fun x hx => absurd hx List.not_mem_nil
  | cons x l ih =>
      have hl := fun z hz => h z (List.mem_cons_of_mem x hz)
      cases hf : f x with
      | some y =>
          have hg := h x List.mem_cons_self y hf
          rw [List.filterMap_cons_some hf, List.filterMap_cons_some hg] at heq
          exact List.forall_mem_cons.mpr ⟨hf.trans hg.symm, ih hl (List.cons.inj heq).2⟩
      | none =>
          cases hg : g x with
          | none =>
              rw [List.filterMap_cons_none hf, List.filterMap_cons_none hg] at heq
              exact List.forall_mem_cons.mpr ⟨hf.trans hg.symm, ih hl heq⟩
          | some y =>
              have hle := length_filterMap_le hl
              rw [List.filterMap_cons_none hf, List.filterMap_cons_some hg] at heq
              rw [heq, List.length_cons] at hle
              omega

theorem takeWhile_take {γ : Type*} (p : γ → Bool) (n : ℕ) (s : List γ) :
    (s.take n).takeWhile p = (s.takeWhile p).take n := by
  induction s generalizing n with
  | nil => simp
  | cons c s ih =>
      cases n with
      | zero => rfl
      | succ n =>
          rw [List.take_succ_cons, List.takeWhile_cons, List.takeWhile_cons]
          split_ifs
          · rw [ih, List.take_succ_cons]
          · rfl

theorem take_append_take {γ : Type*} (n : ℕ) (xs ys : List γ) :
    (xs.take n ++ ys).take n = (xs ++ ys).take n := by
  have hlen : n - (xs.take n).length = n - xs.length := by
    rw [List.length_take]
    omega
  rw [List.take_append, List.take_append, List.take_take, min_self, hlen]

end ListLib
