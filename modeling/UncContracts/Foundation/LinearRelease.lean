import Mathlib.Algebra.Order.Ring.Nat
import Mathlib.Order.Monotone.Basic

/-!
# Linear release

An amount that is released linearly until a time, and one that is held back in full until a cliff
and released linearly from there on. Both only melt, and neither exceeds the amount.

## Main definitions

* `unreleased`: what is left of an amount under a linear release
* `unvested`: what is left of it under a linear release with a cliff

## Main results

* `unreleased_antitone`, `unvested_antitone`: less is left later
* `unreleased_le`, `unvested_le`: no more is left than there was
* `unvested_le_iff`: when no more is left than there was, whatever the cliff
* `unvested_le_unreleased`: a release that starts and ends later leaves more
-/

namespace Foundation

/-- What is left at time `t` of an amount that is released linearly until `stop`, over `total`. -/
def unreleased (amount stop total t : ℕ) : ℕ :=
  if stop ≤ t then 0 else amount * (stop - t) / total

/-- What is left at time `t` of an amount that is released linearly until `stop`, over `total`,
and of which nothing is released before the cliff. -/
def unvested (amount cliff stop total t : ℕ) : ℕ :=
  if t < cliff then amount else unreleased amount stop total t

variable {amount cliff stop total t t' : ℕ}

theorem unreleased_of_le (h : stop ≤ t) : unreleased amount stop total t = 0 := if_pos h

theorem unreleased_of_lt (h : t < stop) :
    unreleased amount stop total t = amount * (stop - t) / total := if_neg (Nat.not_le.mpr h)

/-- A release that lasts as long as it takes leaves no more than the amount. -/
theorem unreleased_le (h : stop ≤ t + total) : unreleased amount stop total t ≤ amount := by
  rcases Nat.lt_or_ge t stop with hlt | hle
  · rw [unreleased_of_lt hlt]
    have hleft : stop - t ≤ total := by omega
    exact Nat.div_le_of_le_mul (by
      rw [Nat.mul_comm total]
      exact Nat.mul_le_mul_left amount hleft)
  · rw [unreleased_of_le hle]
    exact Nat.zero_le amount

/-- A linear release only melts. -/
theorem unreleased_antitone : Antitone (unreleased amount stop total) := by
  intro t t' htt'
  rcases Nat.lt_or_ge t' stop with hlt | hle
  · rw [unreleased_of_lt hlt, unreleased_of_lt (Nat.lt_of_le_of_lt htt' hlt)]
    exact Nat.div_le_div_right (Nat.mul_le_mul_left amount (Nat.sub_le_sub_left htt' stop))
  · rw [unreleased_of_le hle]
    exact Nat.zero_le _

theorem unvested_of_lt (h : t < cliff) : unvested amount cliff stop total t = amount := if_pos h

theorem unvested_of_le (h : cliff ≤ t) :
    unvested amount cliff stop total t = unreleased amount stop total t :=
  if_neg (Nat.not_lt.mpr h)

theorem unvested_le (h : stop ≤ cliff + total) : unvested amount cliff stop total t ≤ amount := by
  rcases Nat.lt_or_ge t cliff with hlt | hle
  · rw [unvested_of_lt hlt]
  · rw [unvested_of_le hle]
    exact unreleased_le (by omega)

/-- What is left at the cliff is at most the amount if and only if the release does not start too
late after the cliff. -/
theorem mul_div_le_iff {start : ℕ} (hcliff : cliff < stop) (hstart : start < stop) :
    amount * (stop - cliff) / (stop - start) ≤ amount ↔
      amount * (start - cliff) < stop - start := by
  have htotal : 0 < stop - start := by omega
  rw [← Nat.lt_succ_iff, Nat.div_lt_iff_lt_mul htotal, Nat.succ_mul]
  rcases Nat.le_total start cliff with hle | hle
  · have hleft : amount * (stop - cliff) ≤ amount * (stop - start) :=
      Nat.mul_le_mul_left amount (by omega)
    rw [Nat.sub_eq_zero_of_le hle]
    omega
  · have hsplit : stop - cliff = stop - start + (start - cliff) := by omega
    rw [hsplit, Nat.mul_add]
    omega

/-- No more is left than there was, at any time, if and only if that holds at the cliff. -/
theorem unvested_le_iff {start : ℕ} (hcliff : cliff < stop) (hstart : start < stop) :
    (∀ t, unvested amount cliff stop (stop - start) t ≤ amount) ↔
      amount * (start - cliff) < stop - start := by
  rw [← mul_div_le_iff hcliff hstart]
  have hat : unvested amount cliff stop (stop - start) cliff =
      amount * (stop - cliff) / (stop - start) := by
    rw [unvested_of_le le_rfl, unreleased_of_lt hcliff]
  constructor
  · intro h
    exact hat ▸ h cliff
  · intro h t
    rcases Nat.lt_or_ge t cliff with hlt | hle
    · exact (unvested_of_lt hlt).le
    · calc unvested amount cliff stop (stop - start) t
          = unreleased amount stop (stop - start) t := unvested_of_le hle
        _ ≤ unreleased amount stop (stop - start) cliff := unreleased_antitone hle
        _ = amount * (stop - cliff) / (stop - start) := unreleased_of_lt hcliff
        _ ≤ amount := h

/-- A linear release with a cliff only melts. -/
theorem unvested_antitone (h : stop ≤ cliff + total) :
    Antitone (unvested amount cliff stop total) := by
  intro t t' htt'
  rcases Nat.lt_or_ge t cliff with hlt | hle
  · rw [unvested_of_lt hlt]
    exact unvested_le h
  · rw [unvested_of_le hle, unvested_of_le (hle.trans htt')]
    exact unreleased_antitone htt'

/-- **Shadows.** A release that starts and ends later than another one leaves more, from its start
on and from the cliff of the other one on. -/
theorem unvested_le_unreleased {start start' stop' : ℕ} (hstart : start ≤ start')
    (hstop : stop ≤ stop') (hcliff : cliff ≤ t) (ht : start' ≤ t) :
    unvested amount cliff stop (stop - start) t ≤ unreleased amount stop' (stop' - start') t := by
  rw [unvested_of_le hcliff]
  rcases Nat.lt_or_ge t stop with hlt | hle
  · rw [unreleased_of_lt hlt, unreleased_of_lt (Nat.lt_of_lt_of_le hlt hstop),
      Nat.le_div_iff_mul_le (by omega)]
    -- The part that is left of the first release is at most that of the second one.
    have hcross : (stop - t) * (stop' - start') ≤ (stop' - t) * (stop - start) := by
      have hsplit : stop - start = (stop - t) + (t - start) := by omega
      have hsplit' : stop' - start' = (stop' - t) + (t - start') := by omega
      rw [hsplit, hsplit', Nat.mul_add, Nat.mul_add, Nat.mul_comm (stop - t) (stop' - t)]
      exact Nat.add_le_add_left (Nat.mul_le_mul (by omega) (by omega)) _
    have hfirst : amount * (stop - t) / (stop - start) * (stop' - start') ≤
        amount * (stop - t) * (stop' - start') / (stop - start) := by
      rw [Nat.mul_comm, Nat.mul_comm (amount * (stop - t))]
      exact Nat.mul_div_le_mul_div_assoc _ _ _
    have hsecond : amount * (stop - t) * (stop' - start') ≤
        amount * (stop' - t) * (stop - start) := by
      rw [Nat.mul_assoc, Nat.mul_assoc]
      exact Nat.mul_le_mul_left amount hcross
    calc amount * (stop - t) / (stop - start) * (stop' - start')
        ≤ amount * (stop - t) * (stop' - start') / (stop - start) := hfirst
      _ ≤ amount * (stop' - t) * (stop - start) / (stop - start) := Nat.div_le_div_right hsecond
      _ = amount * (stop' - t) := Nat.mul_div_cancel _ (by omega)
  · rw [unreleased_of_le hle]
    exact Nat.zero_le _

end Foundation
