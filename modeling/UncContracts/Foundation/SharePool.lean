import Mathlib.Algebra.BigOperators.Group.List.Basic
import Mathlib.Algebra.Order.Ring.Nat
import Mathlib.Tactic.Ring
import Mathlib.Tactic.Linarith

/-!
# Pools divided into shares

A pool of assets divided into shares has a price, assets over shares, which is compared by
cross-multiplication. Shares are converted to assets and back by divisions rounded down or up.
Every operation of a pool that rounds in the pool's favour raises the price, and the worth of a
fixed number of shares never falls when the price does not.

## Main definitions

* `SharePool`: assets and shares
* `SharePool.PriceLE`: the price order
* `SharePool.worth`, `worthUp`, `sharesFor`, `sharesForUp`: the four rounded conversions

## Main results

* `PriceLE.trans`, `worth_le_of_priceLE`: the order and the worth of a holding
* `priceLE_mint`, `priceLE_burn`, `priceLE_reward`, `priceLE_buy`: the operations raise the price
* `sum_worth_le`: the holders of a pool are worth at most its assets
* `worth_sharesFor_le`, `sharesForUp_le`, `worthUp_sharesForUp_le`: what a round trip may lose or gain
-/

namespace Foundation

/-- Assets divided into shares. -/
structure SharePool where
  assets : ℕ
  shares : ℕ

namespace SharePool

variable {p q r : SharePool}

/-- The price of `p` is at most the price of `q`. -/
def PriceLE (p q : SharePool) : Prop := p.assets * q.shares ≤ q.assets * p.shares

/-- The worth of `n` shares, rounded down. -/
def worth (p : SharePool) (n : ℕ) : ℕ := p.assets * n / p.shares

/-- The worth of `n` shares, rounded up. -/
def worthUp (p : SharePool) (n : ℕ) : ℕ := (p.assets * n + (p.shares - 1)) / p.shares

/-- The shares worth `a`, rounded down. -/
def sharesFor (p : SharePool) (a : ℕ) : ℕ := p.shares * a / p.assets

/-- The shares worth `a`, rounded up. -/
def sharesForUp (p : SharePool) (a : ℕ) : ℕ := (p.shares * a + (p.assets - 1)) / p.assets

/-! ## The rounded conversions -/

theorem worth_mul_le (p : SharePool) (n : ℕ) : p.worth n * p.shares ≤ p.assets * n :=
  Nat.div_mul_le_self _ _

theorem le_worthUp_mul (n : ℕ) (h : 0 < p.shares) : p.assets * n ≤ p.worthUp n * p.shares := by
  have hlt := Nat.lt_div_mul_add h (a := p.assets * n + (p.shares - 1))
  unfold worthUp
  omega

theorem worthUp_le_worth_add_one (n : ℕ) (h : 0 < p.shares) : p.worthUp n ≤ p.worth n + 1 := by
  unfold worthUp worth
  rw [← Nat.add_div_right _ h]
  exact Nat.div_le_div_right (by omega)

theorem sharesFor_mul_le (p : SharePool) (a : ℕ) : p.sharesFor a * p.assets ≤ p.shares * a :=
  Nat.div_mul_le_self _ _

/-- All the shares are needed for `a` exactly when `a` is worth more than all but one of them. -/
theorem shares_le_sharesForUp_iff (a : ℕ) (h : 0 < p.assets) (hn : 0 < p.shares) :
    p.shares ≤ p.sharesForUp a ↔ p.assets * (p.shares - 1) < p.shares * a := by
  unfold sharesForUp
  rw [Nat.le_div_iff_mul_le h]
  obtain ⟨n, hn⟩ := Nat.exists_eq_succ_of_ne_zero hn.ne'
  obtain ⟨s, hs⟩ := Nat.exists_eq_succ_of_ne_zero h.ne'
  rw [hn, hs, Nat.succ_sub_one, Nat.succ_sub_one, Nat.succ_mul, Nat.mul_comm s.succ n]
  omega

theorem worth_mono (p : SharePool) {m n : ℕ} (h : m ≤ n) : p.worth m ≤ p.worth n :=
  Nat.div_le_div_right (Nat.mul_le_mul_left _ h)

theorem worth_le_assets {n : ℕ} (h : n ≤ p.shares) : p.worth n ≤ p.assets := by
  rcases Nat.eq_zero_or_pos p.shares with h₀ | hpos
  · simp [worth, h₀]
  · exact Nat.div_le_of_le_mul (by rw [Nat.mul_comm]; exact Nat.mul_le_mul_right _ h)

theorem worth_add_le (p : SharePool) (m n : ℕ) : p.worth m + p.worth n ≤ p.worth (m + n) := by
  unfold worth
  rw [Nat.mul_add]
  exact Nat.div_add_div_le_add_div

/-- The holders of a pool are together worth at most what their shares are. -/
theorem sum_worth_le (p : SharePool) (ns : List ℕ) : (ns.map p.worth).sum ≤ p.worth ns.sum := by
  induction ns with
  | nil => simp
  | cons n ns ih =>
    simp only [List.map_cons, List.sum_cons]
    exact (Nat.add_le_add_left ih _).trans (p.worth_add_le _ _)

/-- At a price of at least one, assets buy at most as many shares. -/
theorem sharesFor_le (h : p.shares ≤ p.assets) (a : ℕ) : p.sharesFor a ≤ a :=
  Nat.div_le_of_le_mul (Nat.mul_le_mul_right _ h)

/-- At a price of at least one, shares are worth at least as many assets. -/
theorem le_worthUp (h : p.shares ≤ p.assets) (hpos : 0 < p.shares) (n : ℕ) : n ≤ p.worthUp n := by
  have hup := p.le_worthUp_mul n hpos
  refine Nat.le_of_mul_le_mul_right (c := p.shares) ?_ hpos
  calc n * p.shares ≤ n * p.assets := Nat.mul_le_mul_left _ h
    _ = p.assets * n := Nat.mul_comm _ _
    _ ≤ p.worthUp n * p.shares := hup

/-- At a price of at least one, shares are worth at least as many assets, rounded down. -/
theorem le_worth (h : p.shares ≤ p.assets) (hpos : 0 < p.shares) (n : ℕ) : n ≤ p.worth n := by
  unfold worth
  rw [Nat.le_div_iff_mul_le hpos, Nat.mul_comm]
  exact Nat.mul_le_mul_right _ h

/-! ## Round trips -/

/-- What assets buy, rounded down, is worth at most the assets. -/
theorem worth_sharesFor_le (p : SharePool) (a : ℕ) : p.worth (p.sharesFor a) ≤ a := by
  have hfor := p.sharesFor_mul_le a
  unfold worth
  apply Nat.div_le_of_le_mul
  calc p.assets * p.sharesFor a = p.sharesFor a * p.assets := Nat.mul_comm _ _
    _ ≤ p.shares * a := hfor

theorem le_sharesForUp_mul (a : ℕ) (h : 0 < p.assets) : p.shares * a ≤ p.sharesForUp a * p.assets := by
  have hlt := Nat.lt_div_mul_add h (a := p.shares * a + (p.assets - 1))
  unfold sharesForUp
  omega

theorem sharesForUp_mul_le (p : SharePool) (a : ℕ) :
    p.sharesForUp a * p.assets ≤ p.shares * a + (p.assets - 1) := Nat.div_mul_le_self _ _

/-- Assets that a holding is worth cost no more shares than the holding has, though one conversion
is rounded down and the other up. -/
theorem sharesForUp_le {a n : ℕ} (h : a ≤ p.worth n) (hassets : 0 < p.assets) :
    p.sharesForUp a ≤ n := by
  have hup := p.sharesForUp_mul_le a
  have hworth : p.shares * a ≤ p.assets * n := by
    calc p.shares * a ≤ p.shares * p.worth n := Nat.mul_le_mul_left _ h
      _ = p.worth n * p.shares := Nat.mul_comm _ _
      _ ≤ p.assets * n := p.worth_mul_le n
  have hlt : p.sharesForUp a * p.assets < (n + 1) * p.assets := by
    rw [Nat.succ_mul, Nat.mul_comm n]
    omega
  exact Nat.lt_succ_iff.mp (Nat.lt_of_mul_lt_mul_right hlt)

/-- The shares for the assets, rounded up, are worth at least the assets. -/
theorem le_worthUp_sharesForUp (a : ℕ) (hassets : 0 < p.assets) (hshares : 0 < p.shares) :
    a ≤ p.worthUp (p.sharesForUp a) := by
  have hfor := p.le_sharesForUp_mul a hassets
  have hup := p.le_worthUp_mul (p.sharesForUp a) hshares
  refine Nat.le_of_mul_le_mul_left (c := p.shares) ?_ hshares
  calc p.shares * a ≤ p.sharesForUp a * p.assets := hfor
    _ = p.assets * p.sharesForUp a := Nat.mul_comm _ _
    _ ≤ p.worthUp (p.sharesForUp a) * p.shares := hup
    _ = p.shares * p.worthUp (p.sharesForUp a) := Nat.mul_comm _ _

/-- Both roundings together give away at most the worth of one share. -/
theorem worthUp_sharesForUp_le (p : SharePool) (a : ℕ) (hshares : 0 < p.shares) :
    p.worthUp (p.sharesForUp a) ≤ a + p.worthUp 1 := by
  have hfor := p.sharesForUp_mul_le a
  have hsum : p.assets * p.sharesForUp a + (p.shares - 1) ≤
      p.assets * 1 + (p.shares - 1) + p.shares * a := by
    rw [Nat.mul_comm p.assets (p.sharesForUp a)]
    omega
  calc p.worthUp (p.sharesForUp a)
      ≤ (p.assets * 1 + (p.shares - 1) + p.shares * a) / p.shares := Nat.div_le_div_right hsum
    _ = p.worthUp 1 + a := Nat.add_mul_div_left _ _ hshares
    _ = a + p.worthUp 1 := Nat.add_comm _ _

/-! ## The price order -/

theorem PriceLE.refl (p : SharePool) : PriceLE p p := le_rfl

theorem PriceLE.trans (hpq : PriceLE p q) (hqr : PriceLE q r) (hq : 0 < q.shares) :
    PriceLE p r := by
  unfold PriceLE at *
  have h₁ := Nat.mul_le_mul_right r.shares hpq
  have h₂ := Nat.mul_le_mul_right p.shares hqr
  refine Nat.le_of_mul_le_mul_right (c := q.shares) ?_ hq
  calc p.assets * r.shares * q.shares = p.assets * q.shares * r.shares := by ring
    _ ≤ q.assets * p.shares * r.shares := h₁
    _ = q.assets * r.shares * p.shares := by ring
    _ ≤ r.assets * q.shares * p.shares := h₂
    _ = r.assets * p.shares * q.shares := by ring

/-- Fewer shares of the same assets have a higher price. -/
theorem PriceLE.of_shares_le {assets m n : ℕ} (h : PriceLE p ⟨assets, n⟩) (hm : m ≤ n) :
    PriceLE p ⟨assets, m⟩ := (Nat.mul_le_mul_left _ hm).trans h

/-- A holding is never worth less at a higher price. -/
theorem worth_le_of_priceLE (h : PriceLE p q) (hp : 0 < p.shares) (hq : 0 < q.shares) (n : ℕ) :
    p.worth n ≤ q.worth n := by
  unfold PriceLE at h
  rw [worth, worth, Nat.le_div_iff_mul_le hq]
  refine Nat.le_of_mul_le_mul_right (c := p.shares) ?_ hp
  calc p.assets * n / p.shares * q.shares * p.shares
      = p.worth n * p.shares * q.shares := by unfold worth; ring
    _ ≤ p.assets * n * q.shares := Nat.mul_le_mul_right _ (p.worth_mul_le n)
    _ = p.assets * q.shares * n := by ring
    _ ≤ q.assets * p.shares * n := Nat.mul_le_mul_right _ h
    _ = q.assets * n * p.shares := by ring

/-- A price of at least one is kept by every operation that does not lower it. -/
theorem shares_le_assets_of_priceLE (h : PriceLE p q) (hp : p.shares ≤ p.assets)
    (hpos : 0 < p.shares) : q.shares ≤ q.assets := by
  unfold PriceLE at h
  refine Nat.le_of_mul_le_mul_right (c := p.shares) ?_ hpos
  calc q.shares * p.shares ≤ q.shares * p.assets := Nat.mul_le_mul_left _ hp
    _ = p.assets * q.shares := Nat.mul_comm _ _
    _ ≤ q.assets * p.shares := h

/-! ## The operations -/

/-- Minting `n` shares for their worth rounded up. -/
theorem priceLE_mint (n : ℕ) (h : 0 < p.shares) :
    PriceLE p ⟨p.assets + p.worthUp n, p.shares + n⟩ := by
  have hup := p.le_worthUp_mul n h
  show p.assets * (p.shares + n) ≤ (p.assets + p.worthUp n) * p.shares
  rw [Nat.mul_add, Nat.add_mul]
  exact Nat.add_le_add_left hup _

/-- Burning `n` shares for their worth rounded down. -/
theorem priceLE_burn (p : SharePool) (n : ℕ) :
    PriceLE p ⟨p.assets - p.worth n, p.shares - n⟩ := by
  have hdown := p.worth_mul_le n
  show p.assets * (p.shares - n) ≤ (p.assets - p.worth n) * p.shares
  rw [Nat.mul_sub, Nat.sub_mul]
  exact Nat.sub_le_sub_left hdown _

/-- Adding assets without minting. -/
theorem priceLE_reward (p : SharePool) (a : ℕ) : PriceLE p ⟨p.assets + a, p.shares⟩ :=
  Nat.mul_le_mul_right _ (Nat.le_add_right _ _)

/-- Adding assets for the shares they are worth, rounded down. -/
theorem priceLE_buy (p : SharePool) (a : ℕ) :
    PriceLE p ⟨p.assets + a, p.shares + p.sharesFor a⟩ := by
  have hfor := p.sharesFor_mul_le a
  show p.assets * (p.shares + p.sharesFor a) ≤ (p.assets + a) * p.shares
  rw [Nat.mul_add, Nat.add_mul, Nat.mul_comm p.assets (p.sharesFor a), Nat.mul_comm a]
  exact Nat.add_le_add_left hfor _

end SharePool

end Foundation
