import Mathlib.Data.Nat.Digits.Defs

/-!
# Numbers in buffers of bytes

A number is kept in memory as its bytes, the lowest one first (`toBytes`), and read from there
again (`ofBytes`). `memcpyV` copies between buffers byte by byte, and fails where it would leave one
of them. What is read from where a number was written is the number, modulo what the width can hold
(`ofBytes_toBytes`), whatever the buffer contained before; what lies beside it is as it was.
-/

namespace McMini.Foundation

/-- The lowest `n` bytes of a number. -/
def toBytes (n x : ℕ) : Vector (BitVec 8) n := Vector.ofFn fun i => BitVec.ofNat 8 (x / 256 ^ i.val)

def ofBytes {n : ℕ} (bytes : Vector (BitVec 8) n) : ℕ :=
  Nat.ofDigits 256 (bytes.toList.map BitVec.toNat)

theorem ofBytes_toBytes (n x : ℕ) : ofBytes (toBytes n x) = x % 256 ^ n := by
  have hlist : ∀ n x, Nat.ofDigits 256 ((List.ofFn fun i : Fin n =>
      BitVec.ofNat 8 (x / 256 ^ i.val)).map BitVec.toNat) = x % 256 ^ n := by
    intro n
    induction n with
    | zero => intro x; simp [Nat.mod_one]
    | succ n ih =>
      intro x
      have htail : (fun i : Fin n => BitVec.ofNat 8 (x / 256 ^ i.succ.val)) =
          fun i : Fin n => BitVec.ofNat 8 (x / 256 / 256 ^ i.val) := by
        funext i
        rw [Fin.val_succ, Nat.pow_succ', Nat.div_div_eq_div_mul]
      rw [List.ofFn_succ, List.map_cons, Nat.ofDigits_cons, htail, ih, Nat.pow_succ', Nat.mod_mul]
      simp
  rw [ofBytes, toBytes, Vector.toList_ofFn]
  exact hlist n x

/-- Copies `n` bytes, from the last one to the first one. -/
def memcpyV {m k : ℕ} : ℕ → Vector (BitVec 8) m → ℕ → Vector (BitVec 8) k → ℕ →
    Option (Vector (BitVec 8) m)
  | 0, dst, _, _, _ => some dst
  | n + 1, dst, dstAt, src, srcAt =>
    if hdst : dstAt + n < m then
      if hsrc : srcAt + n < k then
        memcpyV n (dst.set (dstAt + n) src[srcAt + n]) dstAt src srcAt
      else none
    else none

/-- What has been copied is that of the source, and the rest is as it was. -/
theorem memcpyV_eq {m k n dstAt srcAt : ℕ} {dst : Vector (BitVec 8) m} {src : Vector (BitVec 8) k}
    (hdst : dstAt + n ≤ m) (hsrc : srcAt + n ≤ k) :
    ∃ dst', memcpyV n dst dstAt src srcAt = some dst' ∧ ∀ i, dst'[i]? =
      if dstAt ≤ i ∧ i < dstAt + n then src[srcAt + (i - dstAt)]? else dst[i]? := by
  induction n generalizing dst with
  | zero =>
    refine ⟨dst, rfl, fun i => ?_⟩
    rw [if_neg (by omega)]
  | succ n ih =>
    have hdst' : dstAt + n < m := by omega
    have hsrc' : srcAt + n < k := by omega
    obtain ⟨dst', hcopy, hget⟩ := @ih (dst.set (dstAt + n) src[srcAt + n]) (by omega) (by omega)
    refine ⟨dst', ?_, fun i => ?_⟩
    · rw [memcpyV, dif_pos hdst', dif_pos hsrc', hcopy]
    · rw [hget, Vector.getElem?_set]
      by_cases hi : i = dstAt + n
      · subst hi
        rw [if_neg (by omega), if_pos rfl, if_pos (by omega), Nat.add_sub_cancel_left,
          Vector.getElem?_eq_getElem hsrc']
      · rw [if_neg (Ne.symm hi)]
        exact if_congr (by omega) rfl rfl

end McMini.Foundation
