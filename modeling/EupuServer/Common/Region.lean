import EupuServer.Common.Bytes
/-!
# Regions of a block

The `n` bytes of a block from `p` on. What is written into a block is then
the region it was written to, and leaves the regions beside it alone; a
region is read in two pieces as well as in one.
-/

namespace EupuServer

namespace Bytes

variable {l bs : List UInt8} {p q n k : ℕ}

/-- The `n` bytes of `l` from `p` on. -/
def region (l : List UInt8) (p n : ℕ) : List UInt8 := (l.drop p).take n

@[simp] theorem region_zero (l : List UInt8) (p : ℕ) : region l p 0 = [] := List.take_zero

theorem length_region (h : p + n ≤ l.length) : (region l p n).length = n := by
  rw [region, List.length_take, List.length_drop]
  omega

/-- A region in two pieces. -/
theorem region_add (l : List UInt8) (p n k : ℕ) :
    region l p (n + k) = region l p n ++ region l (p + n) k := by
  rw [region, region, region, List.take_add, List.drop_drop]

theorem drop_region : (region l p n).drop k = region l (p + k) (n - k) := by
  rw [region, region, List.drop_take, List.drop_drop]

/-- What is written is there. -/
theorem region_blit (h : p + bs.length ≤ l.length) : region (blit l p bs) p bs.length = bs := by
  have hp : (l.take p).length = p := List.length_take_of_le (by omega)
  rw [region, blit, List.append_assoc, List.drop_left' hp, List.take_left]

/-- **What lies beside it is left alone.** -/
theorem region_blit_of_disjoint (h : p + bs.length ≤ l.length)
    (hdisj : q + n ≤ p ∨ p + bs.length ≤ q) : region (blit l p bs) q n = region l q n := by
  have hp : (l.take p).length = p := List.length_take_of_le (by omega)
  rcases hdisj with hbefore | hafter
  · have hlen : n ≤ ((l.take p).drop q).length := by
      rw [List.length_drop, hp]
      omega
    rw [region, region, blit, List.append_assoc, List.drop_append_of_le_length (by omega),
      List.take_append_of_le_length hlen, List.drop_take, List.take_take,
      Nat.min_eq_left (by omega)]
  · have hlen : (l.take p ++ bs).length = p + bs.length := by rw [List.length_append, hp]
    rw [region, region, blit, List.drop_append, hlen, List.drop_eq_nil_of_le (by omega),
      List.nil_append, List.drop_drop]
    congr 2
    omega

end Bytes

end EupuServer
