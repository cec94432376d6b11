import Mathlib

/-! # Self-delimiting encodings

A decoder looks at the front of what has arrived and says how much of it makes up a value, or that
it needs more, or that no continuation can be right.  `Reads dec bs v` says what an encoding is for
such a decoder: `bs` is taken for `v` whatever follows, and every proper initial part of `bs` makes
it ask for more.  Two encodings that a decoder reads are never initial parts of each other
(`Reads.unique`), so that a stream of them falls apart in one way only. -/

namespace Delimited

/-- What a decoder makes of the symbols in front of it: a value and the number of symbols it is made
of, the wish for more of them, a failure, or a loop that never ends. -/
inductive Outcome (α : Type*) where
  | ok (value : α) (consumed : ℕ)
  | more
  | fail
  | hang
deriving DecidableEq, Repr

namespace Outcome

variable {α β γ : Type*}

/-- Goes on with the value and the number of symbols it took. -/
def bind (x : Outcome α) (f : α → ℕ → Outcome β) : Outcome β :=
  match x with
  | ok v n => f v n
  | more => more
  | fail => fail
  | hang => hang

@[simp] theorem bind_ok (v : α) (n : ℕ) (f : α → ℕ → Outcome β) : (ok v n).bind f = f v n := rfl

@[simp] theorem bind_more (f : α → ℕ → Outcome β) : (more : Outcome α).bind f = more := rfl

@[simp] theorem bind_fail (f : α → ℕ → Outcome β) : (fail : Outcome α).bind f = fail := rfl

@[simp] theorem bind_hang (f : α → ℕ → Outcome β) : (hang : Outcome α).bind f = hang := rfl

theorem bind_eq_ok {x : Outcome α} {f : α → ℕ → Outcome β} {v : β} {n : ℕ}
    (h : x.bind f = ok v n) : ∃ w m, x = ok w m ∧ f w m = ok v n := by
  cases x with
  | ok w m => exact ⟨w, m, rfl, h⟩
  | more => cases h
  | fail => cases h
  | hang => cases h

theorem bind_eq_hang {x : Outcome α} {f : α → ℕ → Outcome β} (h : x.bind f = hang) :
    x = hang ∨ ∃ w m, x = ok w m ∧ f w m = hang := by
  cases x with
  | ok w m => exact .inr ⟨w, m, rfl, h⟩
  | more => cases h
  | fail => cases h
  | hang => exact .inl rfl

theorem guard_eq_ok {p : Prop} [Decidable p] {x : Outcome α} {v : α} {n : ℕ}
    (h : (if p then fail else x) = ok v n) : ¬p ∧ x = ok v n := by
  split at h
  · cases h
  · exact ⟨by assumption, h⟩

theorem guard_eq_hang {p : Prop} [Decidable p] {x : Outcome α}
    (h : (if p then fail else x) = hang) : ¬p ∧ x = hang := by
  split at h
  · cases h
  · exact ⟨by assumption, h⟩

/-- Inside of a frame that has arrived as a whole, asking for more is a failure. -/
def within (complete : Prop) [Decidable complete] (x : Outcome α) : Outcome α :=
  match x with
  | more => if complete then fail else more
  | x => x

variable {complete : Prop} [Decidable complete]

@[simp] theorem within_ok (v : α) (n : ℕ) : (ok v n).within complete = ok v n := rfl

@[simp] theorem within_fail : (fail : Outcome α).within complete = fail := rfl

@[simp] theorem within_hang : (hang : Outcome α).within complete = hang := rfl

theorem within_more (h : ¬complete) : (more : Outcome α).within complete = more := by
  unfold within
  exact if_neg h

theorem within_eq_ok {x : Outcome α} {v : α} {n : ℕ} (h : x.within complete = ok v n) :
    x = ok v n := by
  cases x with
  | ok w m => exact h
  | more =>
      have hne : (if complete then fail else more : Outcome α) = ok v n := h
      split at hne <;> cases hne
  | fail => cases h
  | hang => cases h

theorem within_eq_hang {x : Outcome α} (h : x.within complete = hang) : x = hang := by
  cases x with
  | ok w m => cases h
  | more =>
      have hne : (if complete then fail else more : Outcome α) = hang := h
      split at hne <;> cases hne
  | fail => cases h
  | hang => rfl

end Outcome

variable {σ α : Type*}

/-- **`bs` is an encoding of `v` for the decoder.** -/
structure Reads (dec : List σ → Outcome α) (bs : List σ) (v : α) : Prop where
  complete : ∀ rest, dec (bs ++ rest) = .ok v bs.length
  cut : ∀ p q, q ≠ [] → p ++ q = bs → dec p = .more

/-- A decoder that comes back from whatever it is given. -/
def Returns (dec : List σ → Outcome α) : Prop := ∀ data, dec data ≠ .hang

variable {dec : List σ → Outcome α} {bs bs₁ bs₂ : List σ} {v : α}

theorem Reads.self (h : Reads dec bs v) : dec bs = .ok v bs.length := by
  have := h.complete []
  rwa [List.append_nil] at this

theorem Reads.take (h : Reads dec bs v) {k : ℕ} (hk : k < bs.length) : dec (bs.take k) = .more := by
  refine h.cut _ (bs.drop k) (fun hnil => ?_) (List.take_append_drop k bs)
  have hlen := congrArg List.length hnil
  rw [List.length_drop, List.length_nil] at hlen
  omega

/-- A value is not made of nothing, unless it is made of nothing everywhere. -/
theorem Reads.ne_nil (h : Reads dec bs v) (hnil : dec [] = .more) : bs ≠ [] := by
  intro hb
  rw [hb] at h
  rw [h.self] at hnil
  cases hnil

/-- **What a decoder reads is determined by the stream**: two encodings in front of one stream are
the same encoding of the same value. -/
theorem Reads.unique {bs' : List σ} {v' : α} {rest rest' : List σ} (h : Reads dec bs v)
    (h' : Reads dec bs' v') (he : bs ++ rest = bs' ++ rest') : bs = bs' ∧ v = v' := by
  have hv := h.complete rest
  rw [he, h'.complete rest'] at hv
  injection hv with hval hlen
  exact ⟨(List.append_inj he hlen.symm).1, hval.symm⟩

/-- The two parts of what is there of `bs₁ ++ bs₂`, when some of it is missing. -/
theorem append_cut {p q : List σ} (h : p ++ q = bs₁ ++ bs₂) :
    (∃ r, r ≠ [] ∧ p ++ r = bs₁) ∨ ∃ p', p = bs₁ ++ p' ∧ p' ++ q = bs₂ := by
  obtain ⟨r, hp, hr⟩ | ⟨r, hb, hq'⟩ := List.append_eq_append_iff.mp h
  · by_cases hnil : r = []
    · right
      refine ⟨[], ?_, ?_⟩
      · rw [hp, hnil, List.append_nil, List.append_nil]
      · rw [hr, hnil, List.nil_append]
        rfl
    · exact .inl ⟨r, hnil, hp.symm⟩
  · exact .inr ⟨r, hb, hq'.symm⟩

end Delimited
