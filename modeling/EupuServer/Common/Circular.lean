import Mathlib.Data.List.Rotate
import Mathlib.Data.Nat.ModEq
/-!
# Bounded queues and circular arrays

A bounded queue takes a block of elements where it has room for the whole
block and gives one back where it holds that many; otherwise nothing
changes. A circular array stores the elements of a queue from an index on
and goes on at the front when it comes to its end, so what it stores is
the beginning of the array rotated to that index.
-/

namespace EupuServer

variable {α : Type*}

/-! ## Bounded queues -/

namespace BoundedFifo

/-- A block is appended where it fits. -/
def put (cap : ℕ) (q xs : List α) : Bool × List α :=
  if q.length + xs.length ≤ cap then (true, q ++ xs) else (false, q)

/-- The first `n` elements, and the queue without them; `none` where there
are not that many, or none is asked for. -/
def get (q : List α) (n : ℕ) : Option (List α × List α) :=
  if 0 < n ∧ n ≤ q.length then some (q.take n, q.drop n) else none

end BoundedFifo

/-! ## Circular arrays -/

namespace Circular

variable {l p : List α} {h i n k : ℕ}

/-- `l` with `p` written over its elements from `i` on. -/
def splice (l : List α) (i : ℕ) (p : List α) : List α :=
  l.take i ++ p ++ l.drop (i + p.length)

/-- `l` with `p` written from `i` on and, where the end of `l` is reached,
from its front on. -/
def write (l : List α) (i : ℕ) (p : List α) : List α :=
  if i + p.length ≤ l.length then splice l i p
  else splice (splice l i (p.take (l.length - i))) 0 (p.drop (l.length - i))

/-- The `n` elements `l` has from `h` on, around its end. -/
def read (l : List α) (h n : ℕ) : List α := (l.rotate h).take n

theorem length_splice (hle : i + p.length ≤ l.length) : (splice l i p).length = l.length := by
  simp only [splice, List.length_append, List.length_take, List.length_drop]
  omega

/-- A block that does not fit behind `i`, written in its two parts. -/
theorem splice_splice (hi : i ≤ l.length) (hlong : l.length ≤ i + p.length)
    (hp : p.length ≤ l.length) :
    splice (splice l i (p.take (l.length - i))) 0 (p.drop (l.length - i)) =
      p.drop (l.length - i) ++ (l.take i).drop (i + p.length - l.length) ++
        p.take (l.length - i) := by
  have hfirst : (p.take (l.length - i)).length = l.length - i := by
    rw [List.length_take]
    omega
  have hrest : (p.drop (l.length - i)).length = i + p.length - l.length := by
    rw [List.length_drop]
    omega
  have hdrop : l.drop (i + (l.length - i)) = [] := List.drop_eq_nil_of_le (by omega)
  rw [splice, splice, hfirst, hrest, hdrop, List.append_nil, List.take_zero, List.nil_append,
    Nat.zero_add, List.drop_append_of_le_length (by rw [List.length_take]; omega),
    List.append_assoc]

theorem length_write (hi : i ≤ l.length) (hp : p.length ≤ l.length) :
    (write l i p).length = l.length := by
  unfold write
  split
  · rename_i hfit
    exact length_splice hfit
  · rw [splice_splice hi (by omega) hp]
    simp only [List.length_append, List.length_take, List.length_drop]
    omega

/-- **Seen from where it was written, the block comes first** and the rest
of the array is as it was. -/
theorem rotate_write (hi : i ≤ l.length) (hp : p.length ≤ l.length) :
    (write l i p).rotate i = p ++ (l.rotate i).drop p.length := by
  have htake : (l.take i).length = i := by rw [List.length_take]; omega
  rw [List.rotate_eq_drop_append_take hi,
    List.rotate_eq_drop_append_take (by rw [length_write hi hp]; exact hi)]
  unfold write
  split
  · rename_i hfit
    rw [splice, List.append_assoc, List.drop_left' htake, List.take_left' htake,
      List.drop_append_of_le_length (by rw [List.length_drop]; omega), List.drop_drop,
      List.append_assoc]
  · rename_i hlong
    have hfront : (p.drop (l.length - i) ++
        (l.take i).drop (i + p.length - l.length)).length = i := by
      simp only [List.length_append, List.length_take, List.length_drop]
      omega
    have hrest : p.length - (l.drop i).length = i + p.length - l.length := by
      rw [List.length_drop]
      omega
    have hnone : (l.drop i).drop p.length = [] :=
      List.drop_eq_nil_of_le (by rw [List.length_drop]; omega)
    rw [splice_splice hi (by omega) hp, List.drop_left' hfront, List.take_left' hfront,
      List.drop_append, hnone, List.nil_append, hrest, ← List.append_assoc, List.take_append_drop]

/-- **A block written behind what is stored is appended to it.** -/
theorem read_write (hi : i ≤ l.length) (hin : i ≡ h + n [MOD l.length])
    (hfit : n + p.length ≤ l.length) :
    read (write l i p) h (n + p.length) = read l h n ++ p := by
  have hlen : (write l i p).length = l.length := length_write hi (by omega)
  have hrot : (write l i p).rotate i = ((write l i p).rotate h).rotate n := by
    rw [List.rotate_rotate, ← List.rotate_mod _ i, ← List.rotate_mod _ (h + n), hlen, hin]
  have hrot' : l.rotate i = (l.rotate h).rotate n := by
    rw [List.rotate_rotate, ← List.rotate_mod _ i, ← List.rotate_mod _ (h + n), hin]
  have hle : n ≤ (l.rotate h).length := by rw [List.length_rotate]; omega
  have hle' : n ≤ ((write l i p).rotate h).length := by rw [List.length_rotate]; omega
  have hseen := rotate_write hi (p := p) (by omega)
  rw [hrot, hrot', List.rotate_eq_drop_append_take hle, List.rotate_eq_drop_append_take hle',
    List.drop_append_of_le_length (by rw [List.length_drop, List.length_rotate]; omega),
    ← List.append_assoc] at hseen
  -- both sides end in the `n` elements in front of the block
  obtain ⟨hblock, hstored⟩ := List.append_inj' hseen (by
    rw [List.length_take, List.length_take, List.length_rotate, List.length_rotate, hlen])
  have hsplit := List.take_append_drop n ((write l i p).rotate h)
  rw [hblock, hstored, ← List.append_assoc] at hsplit
  rw [read, read, ← hsplit]
  exact List.take_left' (by rw [List.length_append, List.length_take]; omega)

/-- What is left when the first `k` elements are gone is stored behind
them. -/
theorem drop_read (hk : k ≤ n) (hn : n ≤ l.length) :
    (read l h n).drop k = read l (h + k) (n - k) := by
  have hle : k ≤ (l.rotate h).length := by rw [List.length_rotate]; omega
  rw [read, read, List.drop_take, ← List.rotate_rotate, List.rotate_eq_drop_append_take hle,
    List.take_append_of_le_length (by rw [List.length_drop, List.length_rotate]; omega)]

theorem take_read (hk : k ≤ n) : (read l h n).take k = read l h k := by
  rw [read, read, List.take_take, Nat.min_eq_left hk]

/-- An index counts only up to whole turns. -/
theorem read_congr {h' : ℕ} (heq : h ≡ h' [MOD l.length]) : read l h n = read l h' n := by
  rw [read, read, ← List.rotate_mod _ h, heq, List.rotate_mod]

/-- Elements in front of the end are read in one piece. -/
theorem read_eq_take_drop (hle : h + n ≤ l.length) : read l h n = (l.drop h).take n := by
  rw [read, List.rotate_eq_drop_append_take (by omega),
    List.take_append_of_le_length (by rw [List.length_drop]; omega)]

/-- Elements around the end are read in two. -/
theorem read_eq_append (hh : h ≤ l.length) (hlong : l.length ≤ h + n) (hn : n ≤ l.length) :
    read l h n = l.drop h ++ l.take (n - (l.length - h)) := by
  rw [read, List.rotate_eq_drop_append_take hh, List.take_append,
    List.take_of_length_le (by rw [List.length_drop]; omega), List.take_take, List.length_drop,
    Nat.min_eq_left (by omega)]

end Circular

end EupuServer
