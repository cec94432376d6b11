import Mathlib

/-! # Circular doubly linked lists of intrusive nodes

A list has a head and elements, all of them nodes with the two link fields `next` and `prev`; the
links go around in a ring, and those of an empty list lead from the head to itself.  The nodes are
part of larger objects in a store, of which only the access to the link fields is assumed here
(`Links`, `Lawful`).

* `Seg` and `Ring` say which nodes a pair of link functions strings together.
* `del`, `addTail` and `initHead` are the operations, write by write.
* `Rings` is a family of lists without common nodes, and says what an operation on one of them
  leaves of all of them. -/

namespace Llist

variable {σ ν ι : Type*}

/-! ### Segments and rings -/

/-- The links lead from `a` through the nodes `xs` to `z` and back. -/
def Seg (next prev : ν → ν) : ν → List ν → ν → Prop
  | a, [], z => next a = z ∧ prev z = a
  | a, x :: xs, z => next a = x ∧ prev x = a ∧ Seg next prev x xs z

/-- A list with head `h` and elements `xs`, all different nodes. -/
def Ring (next prev : ν → ν) (h : ν) (xs : List ν) : Prop :=
  Seg next prev h xs h ∧ (h :: xs).Nodup

section

variable {next prev next' prev' : ν → ν} {a h x z : ν} {xs ys : List ν}

theorem seg_append :
    Seg next prev a (xs ++ x :: ys) z ↔ Seg next prev a xs x ∧ Seg next prev x ys z := by
  induction xs generalizing a with
  | nil => simp only [List.nil_append, Seg, and_assoc]
  | cons y xs ih => simp only [List.cons_append, Seg, ih, and_assoc]

/-- Only the `next` links of the nodes before the end and the `prev` links of the nodes after the
start belong to a segment. -/
theorem Seg.congr (hs : Seg next prev a xs z) (hn : ∀ b ∈ a :: xs, next' b = next b)
    (hp : ∀ b ∈ xs ++ [z], prev' b = prev b) : Seg next' prev' a xs z := by
  induction xs generalizing a with
  | nil =>
      obtain ⟨h₁, h₂⟩ := hs
      exact ⟨(hn a (by simp)).trans h₁, (hp z (by simp)).trans h₂⟩
  | cons x xs ih =>
      obtain ⟨h₁, h₂, h₃⟩ := hs
      refine ⟨(hn a (by simp)).trans h₁, (hp x (by simp)).trans h₂, ?_⟩
      apply ih h₃
      · exact fun b hb => hn b (List.mem_cons_of_mem _ hb)
      · exact fun b hb => hp b (List.mem_cons_of_mem _ hb)

theorem Seg.next_mem (hs : Seg next prev a xs z) : next a ∈ xs ++ [z] := by
  cases xs with
  | nil => simp [hs.1]
  | cons x xs => simp [hs.1]

theorem Seg.prev_mem (hs : Seg next prev a xs z) : prev z ∈ a :: xs := by
  induction xs generalizing a with
  | nil => simp [hs.2]
  | cons x xs ih => exact List.mem_cons_of_mem _ (ih hs.2.2)

/-- Taking a node out between two segments joins them. -/
theorem Seg.unlink [DecidableEq ν] (hs : Seg next prev a xs x) (ht : Seg next prev x ys z)
    (hnd : (xs ++ x :: ys).Nodup) (ha : a ∉ xs ++ x :: ys) (hz : z ∉ xs ++ x :: ys)
    (hn : ∀ b ∈ a :: (xs ++ ys), next' b = if b = prev x then next x else next b)
    (hp : ∀ b ∈ xs ++ ys ++ [z], prev' b = if b = next x then prev x else prev b) :
    Seg next' prev' a (xs ++ ys) z := by
  induction xs generalizing a with
  | nil =>
      obtain ⟨h₁, h₂⟩ := hs
      simp only [List.nil_append, List.mem_cons, not_or] at ha hz hn hp hnd ⊢
      cases ys with
      | nil =>
          obtain ⟨h₃, h₄⟩ := ht
          constructor
          · rw [hn a (by simp), if_pos h₂.symm, h₃]
          · rw [hp z (by simp), if_pos h₃.symm, h₂]
      | cons y ys =>
          obtain ⟨h₃, h₄, h₅⟩ := ht
          have hy : y ∉ ys := (List.nodup_cons.mp (List.nodup_cons.mp hnd).2).1
          refine ⟨?_, ?_, ?_⟩
          · rw [hn a (by simp), if_pos h₂.symm, h₃]
          · rw [hp y (by simp), if_pos h₃.symm, h₂]
          · apply h₅.congr
            · intro b hb
              rw [hn b (.inr hb), if_neg]
              rintro rfl
              rw [h₂] at hb
              exact ha.2 hb
            · intro b hb
              rw [hp b (List.mem_cons_of_mem _ hb), if_neg]
              rintro rfl
              rw [h₃, List.mem_append, List.mem_singleton] at hb
              rcases hb with hb | hb
              · exact hy hb
              · exact hz.2 (hb ▸ List.mem_cons_self)
  | cons y xs ih =>
      obtain ⟨h₁, h₂, h₃⟩ := hs
      rw [List.cons_append, List.nodup_cons] at hnd
      simp only [List.cons_append, List.mem_cons, not_or] at ha hz
      have hprev : prev x ≠ a := by
        intro e
        have hm := h₃.prev_mem
        rw [e, List.mem_cons] at hm
        rcases hm with hm | hm
        · exact ha.1 hm
        · exact ha.2 (List.mem_append_left _ hm)
      have hnext : next x ≠ y := by
        intro e
        have hm := ht.next_mem
        rw [e, List.mem_append, List.mem_singleton] at hm
        rcases hm with hm | hm
        · exact hnd.1 (List.mem_append_right _ (List.mem_cons_of_mem _ hm))
        · exact hz.1 hm.symm
      refine ⟨?_, ?_, ?_⟩
      · rw [hn a (by simp), if_neg hprev.symm, h₁]
      · rw [hp y (by simp), if_neg hnext.symm, h₂]
      · apply ih h₃ hnd.2 hnd.1 hz.2
        · exact fun b hb => hn b (List.mem_cons_of_mem _ hb)
        · exact fun b hb => hp b (List.mem_cons_of_mem _ hb)

theorem Seg.link [DecidableEq ν] (hs : Seg next prev a xs z) (hnd : (a :: xs).Nodup) (hz : z ∉ xs)
    (hxa : x ∉ a :: xs) (hxz : x ≠ z)
    (hn : ∀ b ∈ x :: a :: xs, next' b = if b = prev z then x else if b = x then z else next b)
    (hp : ∀ b ∈ x :: z :: xs, prev' b = if b = x then prev z else if b = z then x else prev b) :
    Seg next' prev' a (xs ++ [x]) z := by
  induction xs generalizing a with
  | nil =>
      obtain ⟨h₁, h₂⟩ := hs
      have hxa : x ≠ a := by simpa using hxa
      refine ⟨?_, ?_, ?_, ?_⟩
      · rw [hn a (by simp), if_pos h₂.symm]
      · rw [hp x (by simp), if_pos rfl, h₂]
      · rw [hn x (by simp), h₂, if_neg hxa, if_pos rfl]
      · rw [hp z (by simp), if_neg hxz.symm, if_pos rfl]
  | cons y xs ih =>
      obtain ⟨h₁, h₂, h₃⟩ := hs
      simp only [List.mem_cons, not_or] at hz hxa
      rw [List.nodup_cons] at hnd
      have hprev : a ≠ prev z := fun e => hnd.1 (e ▸ h₃.prev_mem)
      refine ⟨?_, ?_, ?_⟩
      · rw [hn a (by simp), if_neg hprev, if_neg (Ne.symm hxa.1), h₁]
      · rw [hp y (by simp), if_neg (Ne.symm hxa.2.1), if_neg (Ne.symm hz.1), h₂]
      · apply ih h₃ hnd.2 hz.2
        · simpa only [List.mem_cons, not_or] using hxa.2
        · intro b hb
          simp only [List.mem_cons] at hb
          apply hn
          simp only [List.mem_cons]
          tauto
        · intro b hb
          simp only [List.mem_cons] at hb
          apply hp
          simp only [List.mem_cons]
          tauto

theorem Ring.congr (hr : Ring next prev h xs) (hn : ∀ b ∈ h :: xs, next' b = next b)
    (hp : ∀ b ∈ h :: xs, prev' b = prev b) : Ring next' prev' h xs := by
  refine ⟨hr.1.congr hn fun b hb => hp b ?_, hr.2⟩
  simp only [List.mem_append, List.mem_singleton] at hb
  exact hb.elim (List.mem_cons_of_mem _) fun e => e ▸ List.mem_cons_self

@[simp] theorem ring_nil : Ring next prev h [] ↔ next h = h ∧ prev h = h := by
  simp [Ring, Seg]

theorem Ring.next_head (hr : Ring next prev h (x :: xs)) : next h = x := hr.1.1

theorem Ring.next_head_mem (hr : Ring next prev h xs) : next h ∈ h :: xs := by
  have hmem := hr.1.next_mem
  simp only [List.mem_append, List.mem_singleton] at hmem
  obtain hmem | e := hmem
  · exact List.mem_cons_of_mem _ hmem
  · rw [e]
    exact List.mem_cons_self

theorem Ring.prev_head_mem (hr : Ring next prev h xs) : prev h ∈ h :: xs := hr.1.prev_mem

theorem Ring.links_mem (hr : Ring next prev h xs) (hx : x ∈ xs) :
    next x ∈ h :: xs ∧ prev x ∈ h :: xs := by
  obtain ⟨as, bs, rfl⟩ := List.append_of_mem hx
  obtain ⟨ha, hb⟩ := seg_append.mp hr.1
  have h₁ := hb.next_mem
  have h₂ := ha.prev_mem
  simp only [List.mem_cons, List.mem_append, List.not_mem_nil, or_false] at h₁ h₂ ⊢
  tauto

end

/-! ### The operations -/

/-- How the two link fields of a node are read and written in a store. -/
structure Links (σ ν : Type*) where
  next : σ → ν → ν
  prev : σ → ν → ν
  setNext : σ → ν → ν → σ
  setPrev : σ → ν → ν → σ

namespace Links

/-- The link fields of the nodes `N` do not overlap. -/
structure Lawful [DecidableEq ν] (F : Links σ ν) (N : Set ν) : Prop where
  next_setNext : ∀ s, ∀ a ∈ N, ∀ v, ∀ b ∈ N,
    F.next (F.setNext s a v) b = if b = a then v else F.next s b
  next_setPrev : ∀ s, ∀ a ∈ N, ∀ v, ∀ b ∈ N, F.next (F.setPrev s a v) b = F.next s b
  prev_setNext : ∀ s, ∀ a ∈ N, ∀ v, ∀ b ∈ N, F.prev (F.setNext s a v) b = F.prev s b
  prev_setPrev : ∀ s, ∀ a ∈ N, ∀ v, ∀ b ∈ N,
    F.prev (F.setPrev s a v) b = if b = a then v else F.prev s b

variable (F : Links σ ν)

/-- A head that is its own neighbour. -/
def initHead (s : σ) (h : ν) : σ := F.setPrev (F.setNext s h h) h h

/-- The neighbours of a node are linked to each other, and its own links are overwritten. -/
def del (poison : ν × ν) (s : σ) (x : ν) : σ :=
  let p := F.prev s x
  let n := F.next s x
  let s := F.setPrev s n p
  let s := F.setNext s p n
  let s := F.setNext s x poison.1
  F.setPrev s x poison.2

/-- A node is linked in before the head, which makes it the last element. -/
def addTail (s : σ) (x h : ν) : σ :=
  let p := F.prev s h
  let s := F.setPrev s h x
  let s := F.setNext s x h
  let s := F.setPrev s x p
  F.setNext s p x

/-- The store links the nodes `xs` into the list with head `h`. -/
def RingIn (s : σ) (h : ν) (xs : List ν) : Prop := Ring (F.next s) (F.prev s) h xs

/-! ### What the operations leave alone -/

/-- A part of the store outside the link fields of the nodes `N`. -/
def Outside (F : Links σ ν) (N : Set ν) {β : Type*} (f : σ → β) : Prop :=
  ∀ s, ∀ a ∈ N, ∀ v, f (F.setNext s a v) = f s ∧ f (F.setPrev s a v) = f s

variable {F} {N : Set ν} {s : σ} {poison : ν × ν} {h x : ν} {β : Type*} {f : σ → β}

theorem Outside.del (hf : F.Outside N f) (hx : x ∈ N) (hn : F.next s x ∈ N)
    (hp : F.prev s x ∈ N) : f (F.del poison s x) = f s := by
  simp only [Links.del]
  rw [(hf _ _ hx _).2, (hf _ _ hx _).1, (hf _ _ hp _).1, (hf _ _ hn _).2]

theorem Outside.initHead (hf : F.Outside N f) (hh : h ∈ N) : f (F.initHead s h) = f s := by
  simp only [Links.initHead]
  rw [(hf _ _ hh _).2, (hf _ _ hh _).1]

theorem Outside.addTail (hf : F.Outside N f) (hx : x ∈ N) (hh : h ∈ N)
    (hp : F.prev s h ∈ N) : f (F.addTail s x h) = f s := by
  simp only [Links.addTail]
  rw [(hf _ _ hp _).1, (hf _ _ hx _).2, (hf _ _ hx _).1, (hf _ _ hh _).2]

/-! ### What the operations do to the links -/

variable [DecidableEq ν] {b : ν}

theorem Lawful.next_initHead (hF : F.Lawful N) (hh : h ∈ N) (hb : b ∈ N) :
    F.next (F.initHead s h) b = if b = h then h else F.next s b := by
  rw [initHead, hF.next_setPrev _ _ hh _ _ hb, hF.next_setNext _ _ hh _ _ hb]

theorem Lawful.prev_initHead (hF : F.Lawful N) (hh : h ∈ N) (hb : b ∈ N) :
    F.prev (F.initHead s h) b = if b = h then h else F.prev s b := by
  rw [initHead, hF.prev_setPrev _ _ hh _ _ hb, hF.prev_setNext _ _ hh _ _ hb]

theorem Lawful.next_del (hF : F.Lawful N) (hx : x ∈ N) (hn : F.next s x ∈ N)
    (hp : F.prev s x ∈ N) (hb : b ∈ N) :
    F.next (F.del poison s x) b =
      if b = x then poison.1 else if b = F.prev s x then F.next s x else F.next s b := by
  simp only [del]
  rw [hF.next_setPrev _ _ hx _ _ hb, hF.next_setNext _ _ hx _ _ hb, hF.next_setNext _ _ hp _ _ hb,
    hF.next_setPrev _ _ hn _ _ hb]

theorem Lawful.prev_del (hF : F.Lawful N) (hx : x ∈ N) (hn : F.next s x ∈ N)
    (hp : F.prev s x ∈ N) (hb : b ∈ N) :
    F.prev (F.del poison s x) b =
      if b = x then poison.2 else if b = F.next s x then F.prev s x else F.prev s b := by
  simp only [del]
  rw [hF.prev_setPrev _ _ hx _ _ hb, hF.prev_setNext _ _ hx _ _ hb, hF.prev_setNext _ _ hp _ _ hb,
    hF.prev_setPrev _ _ hn _ _ hb]

theorem Lawful.next_addTail (hF : F.Lawful N) (hx : x ∈ N) (hh : h ∈ N) (hp : F.prev s h ∈ N)
    (hb : b ∈ N) :
    F.next (F.addTail s x h) b =
      if b = F.prev s h then x else if b = x then h else F.next s b := by
  simp only [addTail]
  rw [hF.next_setNext _ _ hp _ _ hb, hF.next_setPrev _ _ hx _ _ hb, hF.next_setNext _ _ hx _ _ hb,
    hF.next_setPrev _ _ hh _ _ hb]

theorem Lawful.prev_addTail (hF : F.Lawful N) (hx : x ∈ N) (hh : h ∈ N) (hp : F.prev s h ∈ N)
    (hb : b ∈ N) :
    F.prev (F.addTail s x h) b =
      if b = x then F.prev s h else if b = h then x else F.prev s b := by
  simp only [addTail]
  rw [hF.prev_setNext _ _ hp _ _ hb, hF.prev_setPrev _ _ hx _ _ hb, hF.prev_setNext _ _ hx _ _ hb,
    hF.prev_setPrev _ _ hh _ _ hb]

/-! ### One list under the operations -/

theorem RingIn.del (hr : F.RingIn s h xs) (hF : F.Lawful N) (hN : ∀ a ∈ h :: xs, a ∈ N)
    (hx : x ∈ xs) : F.RingIn (F.del poison s x) h (xs.filter (· ≠ x)) := by
  obtain ⟨hn, hp⟩ := hr.links_mem hx
  obtain ⟨as, bs, rfl⟩ := List.append_of_mem hx
  obtain ⟨hseg, hnd⟩ := hr
  obtain ⟨hbefore, hafter⟩ := seg_append.mp hseg
  obtain ⟨hh, hnd⟩ := List.nodup_cons.mp hnd
  obtain ⟨hxas, hxbs⟩ : x ∉ as ∧ x ∉ bs := by
    rw [List.nodup_append, List.nodup_cons] at hnd
    exact ⟨fun h => hnd.2.2 x h x List.mem_cons_self rfl, hnd.2.1.1⟩
  have hrest : (as ++ x :: bs).filter (· ≠ x) = as ++ bs := by
    rw [List.filter_append, List.filter_cons_of_neg (by simp), List.filter_eq_self.mpr,
      List.filter_eq_self.mpr]
    · intro b hb
      simpa using fun e : b = x => hxbs (e ▸ hb)
    · intro b hb
      simpa using fun e : b = x => hxas (e ▸ hb)
  have hkept : ∀ b ∈ h :: (as ++ bs), b ∈ N ∧ b ≠ x := by
    intro b hb
    constructor
    · apply hN
      simp only [List.mem_cons, List.mem_append] at hb ⊢
      tauto
    · rintro rfl
      simp only [List.mem_cons, List.mem_append] at hb hh
      tauto
  have hxN : x ∈ N := hN x (by simp)
  rw [hrest]
  refine ⟨hbefore.unlink hafter hnd hh hh ?_ ?_, ?_⟩
  · intro b hb
    rw [hF.next_del hxN (hN _ hn) (hN _ hp) (hkept b hb).1, if_neg (hkept b hb).2]
  · intro b hb
    have hb : b ∈ h :: (as ++ bs) := by
      simp only [List.mem_append, List.mem_cons, List.not_mem_nil, or_false] at hb ⊢
      tauto
    rw [hF.prev_del hxN (hN _ hn) (hN _ hp) (hkept b hb).1, if_neg (hkept b hb).2]
  · rw [List.nodup_cons]
    refine ⟨fun hm => hh ?_, hnd.sublist ?_⟩
    · simp only [List.mem_append, List.mem_cons] at hm ⊢
      tauto
    · exact List.Sublist.append_left (List.sublist_cons_self _ _) _

theorem RingIn.del_other (hr : F.RingIn s h xs) (hF : F.Lawful N) (hN : ∀ a ∈ h :: xs, a ∈ N)
    (hx : x ∈ N ∧ x ∉ h :: xs) (hn : F.next s x ∈ N ∧ F.next s x ∉ h :: xs)
    (hp : F.prev s x ∈ N ∧ F.prev s x ∉ h :: xs) : F.RingIn (F.del poison s x) h xs := by
  apply Ring.congr hr
  · intro b hb
    rw [hF.next_del hx.1 hn.1 hp.1 (hN b hb), if_neg (ne_of_mem_of_not_mem hb hx.2),
      if_neg (ne_of_mem_of_not_mem hb hp.2)]
  · intro b hb
    rw [hF.prev_del hx.1 hn.1 hp.1 (hN b hb), if_neg (ne_of_mem_of_not_mem hb hx.2),
      if_neg (ne_of_mem_of_not_mem hb hn.2)]

theorem RingIn.addTail (hr : F.RingIn s h xs) (hF : F.Lawful N) (hN : ∀ a ∈ h :: xs, a ∈ N)
    (hx : x ∈ N ∧ x ∉ h :: xs) : F.RingIn (F.addTail s x h) h (xs ++ [x]) := by
  have hpN : F.prev s h ∈ N := hN _ hr.prev_head_mem
  obtain ⟨hseg, hnd⟩ := hr
  have hxh : x ≠ h := (ne_of_mem_of_not_mem List.mem_cons_self hx.2).symm
  refine ⟨hseg.link hnd (List.nodup_cons.mp hnd).1 hx.2 hxh ?_ ?_, ?_⟩
  · intro b hb
    have hbN : b ∈ N := (List.mem_cons.mp hb).elim (fun e => e ▸ hx.1) (hN b)
    exact hF.next_addTail hx.1 (hN h (by simp)) hpN hbN
  · intro b hb
    have hbN : b ∈ N := (List.mem_cons.mp hb).elim (fun e => e ▸ hx.1) (hN b)
    exact hF.prev_addTail hx.1 (hN h (by simp)) hpN hbN
  · rw [← List.cons_append, List.nodup_append]
    refine ⟨hnd, List.nodup_singleton _, ?_⟩
    intro a ha b hb e
    rw [List.mem_singleton.mp hb] at e
    exact hx.2 (e ▸ ha)

theorem RingIn.addTail_other {g : ν} (hr : F.RingIn s h xs) (hF : F.Lawful N)
    (hN : ∀ a ∈ h :: xs, a ∈ N) (hx : x ∈ N ∧ x ∉ h :: xs) (hg : g ∈ N ∧ g ∉ h :: xs)
    (hp : F.prev s g ∈ N ∧ F.prev s g ∉ h :: xs) : F.RingIn (F.addTail s x g) h xs := by
  apply Ring.congr hr
  · intro b hb
    rw [hF.next_addTail hx.1 hg.1 hp.1 (hN b hb), if_neg (ne_of_mem_of_not_mem hb hp.2),
      if_neg (ne_of_mem_of_not_mem hb hx.2)]
  · intro b hb
    rw [hF.prev_addTail hx.1 hg.1 hp.1 (hN b hb), if_neg (ne_of_mem_of_not_mem hb hx.2),
      if_neg (ne_of_mem_of_not_mem hb hg.2)]

end Links

/-! ### Families of lists -/

/-- The lists with an index in `on` are linked in the store and have no node in common. -/
structure Rings (F : Links σ ν) (N : Set ν) (s : σ) (on : Set ι) (head : ι → ν)
    (elems : ι → List ν) : Prop where
  ring : ∀ i ∈ on, F.RingIn s (head i) (elems i)
  mem : ∀ i ∈ on, ∀ a ∈ head i :: elems i, a ∈ N
  disjoint : ∀ i ∈ on, ∀ j ∈ on, ∀ a ∈ head i :: elems i, a ∈ head j :: elems j → i = j

namespace Rings

variable {F : Links σ ν} {N : Set ν} {s : σ} {on on' : Set ι} {head : ι → ν}
  {elems elems' : ι → List ν} {x : ν} {i j : ι}

theorem apart (hr : Rings F N s on head elems) (hi : i ∈ on) (hj : j ∈ on) (hij : j ≠ i) {a : ν}
    (ha : a ∈ head i :: elems i) : a ∈ N ∧ a ∉ head j :: elems j :=
  ⟨hr.mem i hi a ha, fun h => hij (hr.disjoint j hj i hi a h ha)⟩

theorem congr {s' : σ} {N' : Set ν} (hr : Rings F N s on head elems)
    (hlinks : ∀ a ∈ N, F.next s' a = F.next s a ∧ F.prev s' a = F.prev s a)
    (hon : ∀ j ∈ on', j ∈ on ∧ elems' j = elems j)
    (hN : ∀ j ∈ on', ∀ a ∈ head j :: elems' j, a ∈ N') : Rings F N' s' on' head elems' := by
  refine ⟨fun j hj => ?_, hN, fun j hj k hk a ha ha' => ?_⟩
  · obtain ⟨hj, he⟩ := hon j hj
    rw [he]
    apply (hr.ring j hj).congr
    · exact fun b hb => (hlinks b (hr.mem j hj b hb)).1
    · exact fun b hb => (hlinks b (hr.mem j hj b hb)).2
  · rw [(hon j hj).2] at ha
    rw [(hon k hk).2] at ha'
    exact hr.disjoint j (hon j hj).1 k (hon k hk).1 a ha ha'

theorem restrict (hr : Rings F N s on head elems)
    (hon : ∀ j ∈ on', j ∈ on ∧ elems' j = elems j) : Rings F N s on' head elems' := by
  refine hr.congr (fun _ _ => ⟨rfl, rfl⟩) hon fun j hj => ?_
  rw [(hon j hj).2]
  exact hr.mem j (hon j hj).1

/-- The node is an element of a list or the head of an empty one. -/
def Deletable (on : Set ι) (head : ι → ν) (elems : ι → List ν) (x : ν) : Prop :=
  ∃ i ∈ on, x ∈ elems i ∨ (x = head i ∧ elems i = [])

theorem nodes_of_deletable (hr : Rings F N s on head elems) (hx : Deletable on head elems x) :
    x ∈ N ∧ F.next s x ∈ N ∧ F.prev s x ∈ N := by
  obtain ⟨i, hi, hx | ⟨rfl, hnil⟩⟩ := hx
  · obtain ⟨hn, hp⟩ := (hr.ring i hi).links_mem hx
    exact ⟨hr.mem i hi x (List.mem_cons_of_mem _ hx), hr.mem i hi _ hn, hr.mem i hi _ hp⟩
  · have hring := hr.ring i hi
    rw [hnil] at hring
    obtain ⟨hn, hp⟩ := ring_nil.mp hring
    have hh := hr.mem i hi _ List.mem_cons_self
    rw [hn, hp]
    exact ⟨hh, hh, hh⟩

variable [DecidableEq ν]

theorem filter_other (hr : Rings F N s on head elems) (hi : i ∈ on) (hj : j ∈ on) (hij : j ≠ i)
    (hx : x ∈ head i :: elems i) : (elems j).filter (· ≠ x) = elems j := by
  rw [List.filter_eq_self]
  intro b hb
  have hxj := (hr.apart hi hj hij hx).2
  simpa using fun e : b = x => hxj (e ▸ List.mem_cons_of_mem _ hb)

theorem del_elem (hr : Rings F N s on head elems) (hF : F.Lawful N) (hi : i ∈ on)
    (hx : x ∈ elems i) (poison : ν × ν) :
    Rings F N (F.del poison s x) on head fun j => (elems j).filter (· ≠ x) := by
  have hsub : ∀ j, ∀ a ∈ head j :: (elems j).filter (· ≠ x), a ∈ head j :: elems j := fun j a ha =>
    List.cons_subset_cons _ (List.filter_subset_self _) ha
  have hxi : x ∈ head i :: elems i := List.mem_cons_of_mem _ hx
  obtain ⟨hn, hp⟩ := (hr.ring i hi).links_mem hx
  refine ⟨fun j hj => ?_, fun j hj a ha => hr.mem j hj a (hsub j a ha),
    fun j hj k hk a ha ha' => hr.disjoint j hj k hk a (hsub j a ha) (hsub k a ha')⟩
  by_cases hij : j = i
  · subst hij
    exact (hr.ring j hj).del hF (hr.mem j hj) hx
  · rw [hr.filter_other hi hj hij hxi]
    exact (hr.ring j hj).del_other hF (hr.mem j hj) (hr.apart hi hj hij hxi)
      (hr.apart hi hj hij hn) (hr.apart hi hj hij hp)

/-- Deleting the head of an empty list leaves the other lists as they are. -/
theorem del_head (hr : Rings F N s on head elems) (hF : F.Lawful N) (hi : i ∈ on)
    (hnil : elems i = []) (poison : ν × ν) :
    Rings F N (F.del poison s (head i)) (on \ {i}) head elems := by
  have hring := hr.ring i hi
  rw [hnil] at hring
  obtain ⟨hn, hp⟩ := ring_nil.mp hring
  refine ⟨fun j hj => ?_, fun j hj => hr.mem j hj.1, fun j hj k hk => hr.disjoint j hj.1 k hk.1⟩
  obtain ⟨hj, hij⟩ := hj
  have happ := hr.apart hi hj hij List.mem_cons_self
  apply (hr.ring j hj).del_other hF (hr.mem j hj) happ
  · rwa [hn]
  · rwa [hp]

/-- Deleting a node takes it out of the list it is in; a head of an empty list is no list any
more. -/
theorem del (hr : Rings F N s on head elems) (hF : F.Lawful N) (hx : Deletable on head elems x)
    (poison : ν × ν) :
    Rings F N (F.del poison s x) {j ∈ on | head j ≠ x} head fun j => (elems j).filter (· ≠ x) := by
  obtain ⟨i, hi, hx | ⟨rfl, hnil⟩⟩ := hx
  · exact (hr.del_elem hF hi hx poison).restrict fun j hj => ⟨hj.1, rfl⟩
  · refine (hr.del_head hF hi hnil poison).restrict fun j hj => ?_
    have hij : j ≠ i := fun e => hj.2 (e ▸ rfl)
    exact ⟨⟨hj.1, hij⟩, hr.filter_other hi hj.1 hij List.mem_cons_self⟩

theorem initHead (hr : Rings F N s on head elems) (hF : F.Lawful N) (hxN : head i ∈ N)
    (hx : ∀ j ∈ on, head i ∉ head j :: elems j) (hnil : elems i = []) :
    Rings F N (F.initHead s (head i)) (insert i on) head elems := by
  have hkeep : ∀ j ∈ on, F.RingIn (F.initHead s (head i)) (head j) (elems j) := by
    intro j hj
    apply (hr.ring j hj).congr
    · intro b hb
      rw [hF.next_initHead hxN (hr.mem j hj b hb), if_neg (ne_of_mem_of_not_mem hb (hx j hj))]
    · intro b hb
      rw [hF.prev_initHead hxN (hr.mem j hj b hb), if_neg (ne_of_mem_of_not_mem hb (hx j hj))]
  have hself : F.RingIn (F.initHead s (head i)) (head i) (elems i) := by
    rw [hnil]
    apply ring_nil.mpr
    constructor
    · rw [hF.next_initHead hxN hxN, if_pos rfl]
    · rw [hF.prev_initHead hxN hxN, if_pos rfl]
  have hnodes : ∀ a ∈ head i :: elems i, a = head i := by
    intro a ha
    simpa only [hnil, List.mem_singleton] using ha
  refine ⟨?_, ?_, ?_⟩
  · rintro j (rfl | hj)
    · exact hself
    · exact hkeep j hj
  · rintro j (rfl | hj) a ha
    · exact (hnodes a ha) ▸ hxN
    · exact hr.mem j hj a ha
  · rintro j (rfl | hj) k (rfl | hk) a ha ha'
    · rfl
    · exact absurd (hnodes a ha ▸ ha') (hx k hk)
    · exact absurd (hnodes a ha' ▸ ha) (hx j hj)
    · exact hr.disjoint j hj k hk a ha ha'

/-- Adding a node that is in no list makes it the last element of the list it is added to. -/
theorem addTail (hr : Rings F N s on head elems) (hF : F.Lawful N) (hi : i ∈ on) (hxN : x ∈ N)
    (hx : ∀ j ∈ on, x ∉ head j :: elems j) (hself : elems' i = elems i ++ [x])
    (hother : ∀ j ∈ on, j ≠ i → elems' j = elems j) :
    Rings F N (F.addTail s x (head i)) on head elems' := by
  have hnodes : ∀ j ∈ on, ∀ a ∈ head j :: elems' j,
      a ∈ head j :: elems j ∨ (a = x ∧ j = i) := by
    intro j hj a ha
    by_cases hij : j = i
    · subst hij
      rw [hself, ← List.cons_append, List.mem_append, List.mem_singleton] at ha
      exact ha.imp_right fun e => ⟨e, rfl⟩
    · rw [hother j hj hij] at ha
      exact .inl ha
  refine ⟨fun j hj => ?_, fun j hj a ha => ?_, fun j hj k hk a ha ha' => ?_⟩
  · by_cases hij : j = i
    · subst hij
      rw [hself]
      exact (hr.ring j hj).addTail hF (hr.mem j hj) ⟨hxN, hx j hj⟩
    · rw [hother j hj hij]
      exact (hr.ring j hj).addTail_other hF (hr.mem j hj) ⟨hxN, hx j hj⟩
        (hr.apart hi hj hij List.mem_cons_self)
        (hr.apart hi hj hij (hr.ring i hi).prev_head_mem)
  · rcases hnodes j hj a ha with h | ⟨rfl, _⟩
    · exact hr.mem j hj a h
    · exact hxN
  · rcases hnodes j hj a ha with h | ⟨rfl, rfl⟩ <;>
      rcases hnodes k hk a ha' with h' | ⟨e, e'⟩
    · exact hr.disjoint j hj k hk a h h'
    · exact absurd (e ▸ h) (hx j hj)
    · exact absurd h' (hx k hk)
    · exact e'.symm

end Rings

end Llist
