import Mathlib

/-!
# Overlaying patches on a buffer

`splice` overwrites a range of a list, `overlay` a list of such patches one
after another. `overlay_cases` reads one position back: it is the original
one where no patch covers it and otherwise comes from a patch that does.
`overlay_eq` is the assembly rule: patches that agree with one target and
cover it together produce the target, in whatever order they are applied.
-/

namespace Overlay

variable {α : Type}

/-- `buf` with the elements from `off` on overwritten by `bs`. -/
def splice (buf : List α) (off : Nat) (bs : List α) : List α :=
  buf.take off ++ bs ++ buf.drop (off + bs.length)

/-- A range of new contents at an offset. -/
structure Patch (α : Type) where
  off : Nat
  data : List α

namespace Patch

/-- Position `i` lies in the patch's range. -/
def Covers (p : Patch α) (i : Nat) : Prop := p.off ≤ i ∧ i < p.off + p.data.length

instance (p : Patch α) (i : Nat) : Decidable (p.Covers i) := by
  unfold Covers; infer_instance

/-- The range of the patch ends within `n` elements. -/
def Fits (p : Patch α) (n : Nat) : Prop := p.off + p.data.length ≤ n

/-- The patch carries the part of `goal` at its own range. -/
def Agrees (p : Patch α) (goal : List α) : Prop :=
  ∀ j, j < p.data.length → p.data[j]? = goal[p.off + j]?

end Patch

/-- `buf` with the patches applied from left to right. -/
def overlay (buf : List α) (ps : List (Patch α)) : List α :=
  ps.foldl (fun b p => splice b p.off p.data) buf

theorem length_splice {buf : List α} {off : Nat} {bs : List α} (fits : off + bs.length ≤ buf.length) :
    (splice buf off bs).length = buf.length := by
  simp [splice]; omega

theorem getElem?_splice_inside {buf : List α} {off i : Nat} {bs : List α}
    (fits : off + bs.length ≤ buf.length) (lo : off ≤ i) (hi : i < off + bs.length) :
    (splice buf off bs)[i]? = bs[i - off]? := by
  have hlen : (buf.take off).length = off := by simp; omega
  rw [splice, List.append_assoc, List.getElem?_append_right (by omega), hlen,
    List.getElem?_append_left (by omega)]

theorem getElem?_splice_outside {buf : List α} {off i : Nat} {bs : List α}
    (fits : off + bs.length ≤ buf.length) (out : i < off ∨ off + bs.length ≤ i) :
    (splice buf off bs)[i]? = buf[i]? := by
  have hlen : (buf.take off).length = off := by simp; omega
  rcases out with lo | hi
  · rw [splice, List.append_assoc, List.getElem?_append_left (by omega), List.getElem?_take_of_lt lo]
  · rw [splice, List.append_assoc, List.getElem?_append_right (by omega),
      List.getElem?_append_right (by omega), hlen, List.getElem?_drop]
    congr 1; omega

/-- Writing right behind what is written already, in a buffer filled with `z`. -/
theorem splice_fill {xs bs : List α} {off m : Nat} {z : α} (h : xs.length = off) :
    splice (xs ++ List.replicate m z) off bs = (xs ++ bs) ++ List.replicate (m - bs.length) z := by
  subst h
  rw [splice, List.take_left, List.drop_append, List.drop_of_length_le (by omega), List.nil_append,
    Nat.add_sub_cancel_left, List.drop_replicate]

theorem splice_empty {bs : List α} {m : Nat} {z : α} :
    splice (List.replicate m z) 0 bs = bs ++ List.replicate (m - bs.length) z := by
  simp [splice]

@[simp] theorem overlay_nil (buf : List α) : overlay buf [] = buf := rfl

@[simp] theorem overlay_snoc (buf : List α) (ps : List (Patch α)) (p : Patch α) :
    overlay buf (ps ++ [p]) = splice (overlay buf ps) p.off p.data := by
  simp [overlay]

theorem length_overlay {buf : List α} {ps : List (Patch α)} (fits : ∀ p ∈ ps, p.Fits buf.length) :
    (overlay buf ps).length = buf.length := by
  induction ps using List.reverseRecOn with
  | nil => rfl
  | append_singleton ps p ih =>
    have hps := ih (fun q hq => fits q (by simp [hq]))
    rw [overlay_snoc, length_splice, hps]
    rw [hps]; exact fits p (by simp)

/-- A position holds the original element where no patch covers it, and an
element carried by a covering patch otherwise. -/
theorem overlay_cases {buf : List α} {ps : List (Patch α)} (fits : ∀ p ∈ ps, p.Fits buf.length) (i : Nat) :
    ((∀ p ∈ ps, ¬ p.Covers i) ∧ (overlay buf ps)[i]? = buf[i]?) ∨
      ∃ p ∈ ps, p.Covers i ∧ (overlay buf ps)[i]? = p.data[i - p.off]? := by
  induction ps using List.reverseRecOn with
  | nil => left; simp
  | append_singleton ps p ih =>
    have hfits : ∀ q ∈ ps, q.Fits buf.length := fun q hq => fits q (by simp [hq])
    have hp : p.off + p.data.length ≤ (overlay buf ps).length := by
      rw [length_overlay hfits]; exact fits p (by simp)
    rw [overlay_snoc]
    by_cases hc : p.Covers i
    · exact .inr ⟨p, by simp, hc, getElem?_splice_inside hp hc.1 hc.2⟩
    · have hout : i < p.off ∨ p.off + p.data.length ≤ i := by
        unfold Patch.Covers at hc; omega
      rw [getElem?_splice_outside hp hout]
      rcases ih hfits with ⟨hnone, heq⟩ | ⟨q, hq, hcov, heq⟩
      · refine .inl ⟨?_, heq⟩
        intro q hq
        rcases List.mem_append.1 hq with hq | hq
        · exact hnone q hq
        · obtain rfl := List.mem_singleton.1 hq
          exact hc
      · exact .inr ⟨q, by simp [hq], hcov, heq⟩

/-- Patches of one target that cover it together assemble it, whatever was there before. -/
theorem overlay_eq {buf goal : List α} {ps : List (Patch α)} (len : buf.length = goal.length)
    (fits : ∀ p ∈ ps, p.Fits goal.length) (agree : ∀ p ∈ ps, p.Agrees goal)
    (cover : ∀ i, i < goal.length → ∃ p ∈ ps, p.Covers i) : overlay buf ps = goal := by
  rw [← len] at fits
  apply List.ext_getElem?
  intro i
  by_cases hi : i < goal.length
  · rcases overlay_cases fits i with ⟨hnone, _⟩ | ⟨p, hp, hcov, heq⟩
    · obtain ⟨p, hp, hcov⟩ := cover i hi
      exact absurd hcov (hnone p hp)
    · rw [heq, agree p hp _ (by unfold Patch.Covers at hcov; omega)]
      congr 1; unfold Patch.Covers at hcov; omega
  · rw [List.getElem?_eq_none (by rw [length_overlay fits]; omega), List.getElem?_eq_none (by omega)]

/-- Each patch begins where the one before it ends, the first one at `n`. -/
def Contiguous : Nat → List (Patch α) → Prop
  | _, [] => True
  | n, p :: ps => p.off = n ∧ Contiguous (n + p.data.length) ps

theorem Contiguous.append {n : Nat} {ps qs : List (Patch α)} (hp : Contiguous n ps)
    (hq : Contiguous (n + (ps.flatMap Patch.data).length) qs) : Contiguous n (ps ++ qs) := by
  induction ps generalizing n with
  | nil => exact hq
  | cons p ps ih =>
    refine ⟨hp.1, ih hp.2 ?_⟩
    rw [List.flatMap_cons, List.length_append, ← Nat.add_assoc] at hq
    exact hq

/-- Patches without a gap cover each position of their range once and no other position. -/
theorem Contiguous.countP_covers {n : Nat} {ps : List (Patch α)} (contiguous : Contiguous n ps) (i : Nat) :
    ps.countP (fun p => p.Covers i) = if n ≤ i ∧ i < n + (ps.flatMap Patch.data).length then 1 else 0 := by
  induction ps generalizing n with
  | nil =>
    rw [List.flatMap_nil, List.length_nil, List.countP_nil, if_neg (by omega)]
  | cons p ps ih =>
    obtain ⟨off, rest⟩ := contiguous
    rw [List.countP_cons, ih rest, List.flatMap_cons, List.length_append]
    simp only [Patch.Covers, off, decide_eq_true_eq]
    grind

/-- A patch at the beginning of a gap. -/
theorem splice_gap {pre bs hole post : List α} (fits : bs.length ≤ hole.length) :
    splice (pre ++ (hole ++ post)) pre.length bs = (pre ++ bs) ++ (hole.drop bs.length ++ post) := by
  rw [splice, List.take_left, ← List.drop_drop, List.drop_left, List.drop_append_of_le_length fits]

end Overlay
