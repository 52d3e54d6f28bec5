import EupuServer.Common.Machine
import EupuServer.Utility.RingBuffer
/-!
# The tests of the ring buffer and their range

`isempty` and `isfull` compare the indices, `getsize` counts between them.
The two agree as long as no `get` takes the bytes in front of the end of
the array while `r` stands at that end: `get` then takes `h` to the front
and `r` stays (`agree_of_reach`). The sizes are right as long as the sum
`getsize` counts with does not leave 32 bits (`exact_iff`), which it does in
some run from a capacity of `2 ^ 31` on, and not before (`runs_exact_iff`).
-/

namespace EupuServer

namespace Utility

namespace RingBuffer

open Bytes

variable (rb : RingBuffer)

/-- `isfull`. -/
def isfull : Bool := (rb.r + 1) % rb.bufsize == rb.h

/-- `isempty`. -/
def isempty : Bool := rb.r == rb.h

/-! ## Runs -/

/-- A buffer, and how many bytes were put into it and not yet taken out. -/
structure Counted where
  rb : RingBuffer
  stored : ℕ

/-- How many bytes are stored once a call is answered. -/
def storedAfter (n : ℕ) : Call → Answer → ℕ
  | .put _ len _, .put true => n + len.toNat
  | .get len _ _, .get true _ => n - len.toNat
  | .reset, _ => 0
  | _, _ => n

/-- A call; `none` where it faults. -/
def Counted.next (s : Counted) (call : Call) : Option Counted :=
  (s.rb.step call).map fun (answer, rb') => ⟨rb', storedAfter s.stored call answer⟩

/-- What a `put` that is accepted adds. -/
theorem Counted.next_put (s : Counted) {p : List UInt8} {len : UInt32} {rb' : RingBuffer}
    (hlen : len.toNat ≤ p.length) (hput : s.rb.put p len = some (true, rb')) :
    s.next (.put p len hlen) = some ⟨rb', s.stored + len.toNat⟩ := by
  rw [Counted.next, RingBuffer.step, hput]
  rfl

/-- The calls after `init(bfsz)`, in any order. -/
def ring (bfsz : UInt32) : Machine Counted Call where
  init := ⟨init bfsz, 0⟩
  next := Counted.next

/-- **What a call does** to a buffer that counts `n` bytes. -/
inductive Moves (bfsz : ℕ) (rb : RingBuffer) (n : ℕ) : Call → Answer → RingBuffer → Prop
  | put {p : List UInt8} {len : UInt32} {hlen : len.toNat ≤ p.length} {buf : List UInt8}
      {r' : UInt32} (hfit : n + len.toNat ≤ bfsz) (halloc : buf.length = bfsz + 1)
      (htail : r'.toNat ≤ bfsz + 1)
      (hr' : r'.toNat = rb.r.toNat + len.toNat ∨
        r'.toNat + (bfsz + 1) = rb.r.toNat + len.toNat) :
      Moves bfsz rb n (.put p len hlen) (.put true) { rb with buf := buf, r := r' }
  | putRefused {p : List UInt8} {len : UInt32} {hlen : len.toNat ≤ p.length} :
      Moves bfsz rb n (.put p len hlen) (.put false) rb
  | get {len : UInt32} {dst dst' : List UInt8} {hlen : len.toNat ≤ dst.length} {h' : UInt32}
      (hpos : 0 < len.toNat) (hmany : len.toNat ≤ n) (hhead : h'.toNat < bfsz + 1)
      (hh' : h'.toNat = rb.h.toNat + len.toNat ∨
        h'.toNat + (bfsz + 1) = rb.h.toNat + len.toNat) :
      Moves bfsz rb n (.get len dst hlen) (.get true dst') { rb with h := h' }
  | getRefused {len : UInt32} {dst : List UInt8} {hlen : len.toNat ≤ dst.length}
      (hmany : ¬ (0 < len.toNat ∧ len.toNat ≤ n)) :
      Moves bfsz rb n (.get len dst hlen) (.get false dst) rb
  | reset {buf : List UInt8} (halloc : buf.length = bfsz + 1) :
      Moves bfsz rb n .reset .reset { rb with buf := buf, h := 0, r := 0 }

variable {rb} {bfsz n : ℕ} {call : Call} {answer : Answer} {rb' : RingBuffer}

/-- **A buffer that counts right does not fault.** -/
theorem Counts.step (hc : Counts bfsz rb n) (call : Call) :
    ∃ answer rb', rb.step call = some (answer, rb') ∧ Moves bfsz rb n call answer rb' := by
  have hsize := hc.size
  have halloc := hc.alloc
  cases call with
  | put p len hlen =>
    by_cases hfit : n + len.toNat ≤ bfsz
    · obtain ⟨r', hput, htail, hr'⟩ := hc.put_of_fits hlen hfit
      have hwritten := Circular.length_write (l := rb.buf) (i := rb.r.toNat)
        (p := p.take len.toNat) (by rw [halloc]; exact hc.tail)
        (by rw [List.length_take, halloc]; omega)
      exact ⟨_, _, by rw [RingBuffer.step, hput]; rfl,
        .put hfit (hwritten.trans halloc) htail hr'⟩
    · exact ⟨_, _, by rw [RingBuffer.step, hc.put_of_not_fits hfit]; rfl, .putRefused⟩
  | get len dst hlen =>
    by_cases hmany : 0 < len.toNat ∧ len.toNat ≤ n
    · obtain ⟨h', hget, hhead, hh'⟩ := hc.get_of_holds hlen hmany.1 hmany.2
      exact ⟨_, _, by rw [RingBuffer.step, hget]; rfl, .get hmany.1 hmany.2 hhead hh'⟩
    · exact ⟨_, _, by rw [RingBuffer.step, hc.get_of_not_holds hmany]; rfl, .getRefused hmany⟩
  | reset =>
    refine ⟨_, _, by rw [RingBuffer.step, RingBuffer.reset, if_pos (by omega)]; rfl,
      .reset ?_⟩
    rw [length_blit (by rw [List.length_replicate]; omega), halloc]

/-- The indices stay those of the bytes that are stored. -/
theorem Moves.indices (hm : Moves bfsz rb n call answer rb') (hx : Indices bfsz rb n) :
    Indices bfsz rb' (storedAfter n call answer) := by
  cases hm with
  | put hfit _ htail hr' => exact hx.behind hfit _ htail hr'
  | putRefused => exact hx
  | get _ hmany hhead hh' => exact hx.ahead hmany hhead hh'
  | getRefused _ => exact hx
  | reset _ => exact ⟨hx.size, Nat.succ_pos _, Nat.zero_le _, Nat.zero_le _, .inl rfl⟩

/-- The array stays. -/
theorem Moves.alloc (hm : Moves bfsz rb n call answer rb') (halloc : rb.buf.length = bfsz + 1) :
    rb'.buf.length = bfsz + 1 := by
  cases hm with
  | put _ hwritten _ _ => exact hwritten
  | putRefused => exact halloc
  | get _ _ _ _ => exact halloc
  | getRefused _ => exact halloc
  | reset hcleared => exact hcleared

/-- Up to half the range `getsize` counts right, whatever the indices. -/
theorem Indices.counts (hx : Indices bfsz rb n) (halloc : rb.buf.length = bfsz + 1)
    (hroom : bfsz < 2 ^ 31) : Counts bfsz rb n := by
  have htail := hx.tail
  exact ⟨hx, halloc, hx.toNat_getsize_iff.mpr (by omega)⟩

/-- **One call.** Up to half the range a buffer that counts right does not
fault, and counts right then. -/
theorem Counts.next (hroom : bfsz < 2 ^ 31) {s : Counted} (hc : Counts bfsz s.rb s.stored)
    (call : Call) :
    ∃ answer s', s.next call = some s' ∧ Moves bfsz s.rb s.stored call answer s'.rb ∧
      Counts bfsz s'.rb s'.stored := by
  obtain ⟨answer, rb', hstep, hm⟩ := hc.step call
  refine ⟨answer, ⟨rb', storedAfter s.stored call answer⟩, ?_, hm,
    (hm.indices hc.toIndices).counts (hm.alloc hc.alloc) hroom⟩
  rw [Counted.next, hstep]
  rfl

/-- A new buffer has its indices at the front. -/
theorem indices_init {bfsz : UInt32} (hbfsz : bfsz.toNat + 1 < 2 ^ 32) :
    Indices bfsz.toNat (init bfsz) 0 ∧ (init bfsz).buf.length = bfsz.toNat + 1 := by
  have hsize : (bfsz + 1).toNat = bfsz.toNat + 1 := by
    rw [UInt32.toNat_add]
    exact Nat.mod_eq_of_lt hbfsz
  refine ⟨⟨hsize, Nat.succ_pos _, Nat.zero_le _, Nat.zero_le _, .inl rfl⟩, ?_⟩
  rw [init, List.length_replicate, hsize]

/-- **Every run counts right** up to half the range. -/
theorem counts_of_reach {bfsz : UInt32} (hroom : bfsz.toNat < 2 ^ 31)
    {ok : Counted → Call → Prop} {s : Counted} (hs : (ring bfsz).Reach ok s) :
    Counts bfsz.toNat s.rb s.stored := by
  refine hs.invariant (I := fun s => Counts bfsz.toNat s.rb s.stored) ?_ ?_
  · obtain ⟨hx, halloc⟩ := indices_init (show bfsz.toNat + 1 < 2 ^ 32 by omega)
    exact hx.counts halloc hroom
  · intro s call s' _ _ hnext hc
    obtain ⟨_, s₁, hs₁, _, hc₁⟩ := hc.next hroom call
    rw [show (ring bfsz).next s call = s.next call from rfl, hs₁, Option.some.injEq] at hnext
    exact hnext ▸ hc₁

/-- And no call faults. -/
theorem isSome_next {bfsz : UInt32} (hroom : bfsz.toNat < 2 ^ 31) {ok : Counted → Call → Prop}
    {s : Counted} (hs : (ring bfsz).Reach ok s) (call : Call) : (s.next call).isSome := by
  obtain ⟨_, s', hs', _, _⟩ := (counts_of_reach hroom hs).next hroom call
  rw [hs']
  rfl

/-! ## The tests -/

/-- **The tests agree with the sizes.** -/
def Agree (rb : RingBuffer) : Prop :=
  (rb.isempty = true ↔ rb.getsize = 0) ∧ (rb.isfull = true ↔ rb.getfree = 0)

instance : DecidablePred Agree := fun rb =>
  inferInstanceAs (Decidable ((rb.isempty = true ↔ rb.getsize = 0) ∧
    (rb.isfull = true ↔ rb.getfree = 0)))

/-- The index at the end of the array is the one at its front. -/
def Split (rb : RingBuffer) : Prop := rb.r = rb.bufsize ∧ rb.h = 0

/-- A `get` of the bytes up to the end of the array, with `r` at that end. -/
def ToEnd (rb : RingBuffer) : Call → Prop
  | .get len _ _ => rb.r = rb.bufsize ∧ rb.h.toNat + len.toNat = rb.bufsize.toNat
  | _ => False

instance (rb : RingBuffer) : (call : Call) → Decidable (ToEnd rb call)
  | .get len _ _ =>
    inferInstanceAs (Decidable (rb.r = rb.bufsize ∧ rb.h.toNat + len.toNat = rb.bufsize.toNat))
  | .put .. => inferInstanceAs (Decidable False)
  | .reset => inferInstanceAs (Decidable False)

theorem split_iff_toNat : Split rb ↔ rb.r.toNat = rb.bufsize.toNat ∧ rb.h.toNat = 0 := by
  rw [Split, ← UInt32.toNat_inj, ← UInt32.toNat_inj, UInt32.toNat_zero]

/-- `isempty` is wrong only of a buffer whose two indices stand at the two
ends of the array. -/
theorem Counts.isempty_iff (hc : Counts bfsz rb n) :
    (rb.isempty = true ↔ rb.getsize = 0) ↔ ¬ Split rb := by
  have hsize := hc.size
  have hhead := hc.head
  have htail := hc.tail
  have hfits := hc.fits
  have hindex := hc.index
  simp only [isempty, split_iff_toNat, beq_iff_eq, ← UInt32.toNat_inj, hc.counted, hsize,
    UInt32.toNat_zero]
  omega

/-- `isfull` is right. -/
theorem Counts.isfull_iff (hc : Counts bfsz rb n) (hroom : bfsz < 2 ^ 31) :
    rb.isfull = true ↔ rb.getfree = 0 := by
  have hhead := hc.head
  have htail := hc.tail
  have hfits := hc.fits
  have hindex := hc.index
  have hnext : (rb.r + 1).toNat = rb.r.toNat + 1 := by
    rw [UInt32.toNat_add]
    exact Nat.mod_eq_of_lt (by rw [UInt32.toNat_one]; omega)
  simp only [isfull, beq_iff_eq, ← UInt32.toNat_inj, hc.toNat_getfree, UInt32.toNat_mod, hnext,
    hc.size, UInt32.toNat_zero]
  have hturn : (rb.r.toNat + 1) % (bfsz + 1) = (rb.h.toNat + n + 1) % (bfsz + 1) := by
    rcases hindex with heq | heq | heq
    · rw [heq]
    · rw [show rb.h.toNat + n + 1 = rb.r.toNat + 1 + (bfsz + 1) by omega, Nat.add_mod_right]
    · rw [show rb.r.toNat + 1 = rb.h.toNat + n + 1 + (bfsz + 1) by omega, Nat.add_mod_right]
  rw [hturn]
  rcases Nat.lt_or_ge (rb.h.toNat + n + 1) (bfsz + 1) with hlt | hge
  · rw [Nat.mod_eq_of_lt hlt]
    omega
  · rw [Nat.mod_eq_sub_mod hge, Nat.mod_eq_of_lt (by omega)]
    omega

theorem Counts.agree_iff (hc : Counts bfsz rb n) (hroom : bfsz < 2 ^ 31) :
    Agree rb ↔ ¬ Split rb := by
  rw [Agree, hc.isempty_iff, and_iff_left (hc.isfull_iff hroom)]

/-- **Only a `get` up to the end splits the indices.** -/
theorem Moves.split_iff (hm : Moves bfsz rb n call answer rb') (hx : Indices bfsz rb n)
    (hsplit : ¬ Split rb) : Split rb' ↔ ToEnd rb call := by
  have hsize := hx.size
  have hhead := hx.head
  have htail := hx.tail
  have hfits := hx.fits
  have hindex := hx.index
  rw [split_iff_toNat, hsize] at hsplit
  cases hm with
  | put hfit _ htail' hr' =>
    simp only [split_iff_toNat, ToEnd, hsize, iff_false]
    omega
  | putRefused =>
    simp only [split_iff_toNat, ToEnd, hsize, iff_false]
    omega
  | get hpos hmany hhead' hh' =>
    simp only [split_iff_toNat, ToEnd, ← UInt32.toNat_inj, hsize]
    omega
  | getRefused hmany =>
    simp only [split_iff_toNat, ToEnd, ← UInt32.toNat_inj, hsize]
    omega
  | reset _ =>
    simp only [split_iff_toNat, ToEnd, hsize, iff_false]
    omega

/-- So it is in a run. -/
theorem split_iff_of_takes {bfsz : UInt32} (hroom : bfsz.toNat < 2 ^ 31) {s s' : Counted}
    (ht : (ring bfsz).Takes s call s') (hsplit : ¬ Split s.rb) :
    Split s'.rb ↔ ToEnd s.rb call := by
  have hc := counts_of_reach hroom ht.1
  obtain ⟨_, s₁, hs₁, hm, _⟩ := hc.next hroom call
  have hnext : s.next call = some s' := ht.2
  rw [hs₁, Option.some.injEq] at hnext
  subst hnext
  exact hm.split_iff hc.toIndices hsplit

/-- **Without such a `get` the indices are not split.** -/
theorem not_split_of_reach {bfsz : UInt32} (hroom : bfsz.toNat < 2 ^ 31) {s : Counted}
    (hs : (ring bfsz).Reach (fun s call => ¬ ToEnd s.rb call) s) : ¬ Split s.rb := by
  refine hs.invariant (I := fun s => ¬ Split s.rb) ?_ ?_
  · have hsize := (indices_init (show bfsz.toNat + 1 < 2 ^ 32 by omega)).1.size
    change ¬ Split (init bfsz)
    rw [split_iff_toNat, hsize]
    exact fun hboth => absurd hboth.1 (Nat.succ_ne_zero _).symm
  · intro s call s' hreach hok hnext hsplit hsplit'
    exact hok ((split_iff_of_takes hroom ⟨hreach.reachable, hnext⟩ hsplit).mp hsplit')

/-- **The tests of the ring buffer agree with its sizes** in the runs where
no `get` takes the bytes up to the end of the array while `r` stands there.
Such a `get`, and no other call, makes them disagree. -/
theorem agree_of_reach {bfsz : UInt32} (hbfsz : bfsz.toNat + 1 < 2 ^ 31) :
    (∀ s, (ring bfsz).Reach (fun s call => ¬ ToEnd s.rb call) s →
        Agree s.rb ∧ ∀ call, (s.next call).isSome) ∧
      ∀ s call s', (ring bfsz).Takes s call s' → Agree s.rb →
        (Agree s'.rb ↔ ¬ ToEnd s.rb call) := by
  have hroom : bfsz.toNat < 2 ^ 31 := by omega
  refine ⟨fun s hs => ⟨?_, isSome_next hroom hs⟩, fun s call s' ht hagree => ?_⟩
  · exact ((counts_of_reach hroom hs).agree_iff hroom).mpr (not_split_of_reach hroom hs)
  · have hc := counts_of_reach hroom ht.1
    have hc' := counts_of_reach hroom (.step ht.1 trivial ht.2)
    rw [hc'.agree_iff hroom, split_iff_of_takes hroom ht ((hc.agree_iff hroom).mp hagree)]

/-- At capacity three: the buffer is filled and emptied, and one byte goes
to the end of the array. -/
def endRun : List Call :=
  [.put [1, 2, 3] 3 (by decide), .get 3 [0, 0, 0] (by decide), .put [4] 1 (by decide)]

/-- The `get` of that byte. -/
def endGet : Call := .get 1 [0] (by decide)

/-- It makes the tests disagree. -/
theorem agree_of_reach_three :
    ∃ s s', (ring 3).Takes s endGet s' ∧ Agree s.rb ∧ ¬ Agree s'.rb := by
  have hrun : ∃ s s', (ring 3).Takes s endGet s' ∧ Agree s.rb ∧ ToEnd s.rb endGet :=
    Machine.exists_takes_of_exec endRun (by decide)
  obtain ⟨s, s', ht, hagree, hend⟩ := hrun
  exact ⟨s, s', ht, hagree, fun hagree' =>
    ((agree_of_reach (by decide)).2 s endGet s' ht hagree).mp hagree' hend⟩

/-- Nothing is stored then, and `isempty` denies it. -/
theorem not_agree_of_reach : ¬ ∀ bfsz : UInt32, bfsz.toNat + 1 < 2 ^ 31 →
    ∀ s, (ring bfsz).Reachable s → Agree s.rb := by
  intro h
  have hrun : ∃ s, (ring 3).Reachable s ∧ ¬ Agree s.rb :=
    Machine.exists_reach_of_exec (endRun ++ [endGet]) (by decide)
  obtain ⟨s, hs, hnot⟩ := hrun
  exact hnot (h 3 (by decide) s hs)

/-! ## The range -/

/-- **The arithmetic is exact** of `s`: there is a modulus, and the sizes are
those of the bytes stored and of the room left. -/
structure Exact (bfsz : UInt32) (s : Counted) : Prop where
  modulus : s.rb.bufsize ≠ 0
  size : s.rb.getsize.toNat = s.stored
  free : s.rb.getfree.toNat + s.stored = bfsz.toNat

/-- **The sum that `getsize` takes the remainder of is not cut**: there is a
modulus, and the sum is one of 32 bits, or the array is half their range. -/
def InRange (rb : RingBuffer) : Prop :=
  rb.bufsize ≠ 0 ∧
    (rb.r.toNat + rb.bufsize.toNat < rb.h.toNat + 2 ^ 32 ∨ rb.bufsize.toNat = 2 ^ 31)

instance : DecidablePred InRange := fun rb =>
  inferInstanceAs (Decidable (rb.bufsize ≠ 0 ∧ (_ < _ ∨ _ = _)))

/-- A call that the arithmetic is exact for when it is made. -/
def CallInRange (s : Counted) (call : Call) : Prop := call ≠ .reset ∧ InRange s.rb

/-- The array is there, where it has a length. -/
theorem Indices.bufsize_ne_zero (hx : Indices bfsz rb n) : rb.bufsize ≠ 0 := by
  intro hzero
  have hsize := hx.size
  rw [hzero] at hsize
  cases hsize

/-- Where the sum is not cut the bytes are counted. -/
theorem Indices.inRange_iff (hx : Indices bfsz rb n) : InRange rb ↔ rb.getsize.toNat = n := by
  rw [InRange, and_iff_right hx.bufsize_ne_zero, hx.toNat_getsize_iff, hx.size]

/-- A buffer that counts right is exact. -/
theorem Counts.exact {bfsz : UInt32} {s : Counted} (hc : Counts bfsz.toNat s.rb s.stored) :
    Exact bfsz s where
  modulus := hc.bufsize_ne_zero
  size := hc.counted
  free := by
    rw [hc.toNat_getfree]
    exact Nat.sub_add_cancel hc.fits

/-- The indices of a buffer whose calls were all in range. An array that
would be as long as the range has no byte, and no call is in range of it. -/
theorem indices_of_reach {bfsz : UInt32} {s : Counted} (hs : (ring bfsz).Reach CallInRange s) :
    (bfsz.toNat + 1 < 2 ^ 32 ∧
        Indices bfsz.toNat s.rb s.stored ∧ s.rb.buf.length = bfsz.toNat + 1) ∨
      s.rb.bufsize = 0 := by
  refine hs.invariant (I := fun s => (bfsz.toNat + 1 < 2 ^ 32 ∧
    Indices bfsz.toNat s.rb s.stored ∧ s.rb.buf.length = bfsz.toNat + 1) ∨ s.rb.bufsize = 0) ?_ ?_
  · by_cases hwrap : bfsz.toNat + 1 < 2 ^ 32
    · exact .inl ⟨hwrap, indices_init hwrap⟩
    · refine .inr ?_
      have hlt := bfsz.toNat_lt
      rw [← UInt32.toNat_inj]
      change (bfsz + 1).toNat = 0
      rw [UInt32.toNat_add, UInt32.toNat_one]
      omega
  · rintro s call s' - hok hnext (⟨hwrap, hx, halloc⟩ | hzero)
    · have hc : Counts bfsz.toNat s.rb s.stored := ⟨hx, halloc, hx.inRange_iff.mp hok.2⟩
      obtain ⟨answer, rb', hstep, hm⟩ := hc.step call
      have hnext' : s.next call = some s' := hnext
      rw [Counted.next, hstep, Option.map_some, Option.some.injEq] at hnext'
      subst hnext'
      exact .inl ⟨hwrap, hm.indices hx, hm.alloc halloc⟩
    · exact absurd hzero hok.2.1

/-- **In range the sizes are right, and only there**; and no call made there
faults. -/
theorem exact_iff_of_reach {bfsz : UInt32} {s : Counted}
    (hs : (ring bfsz).Reach CallInRange s) :
    (Exact bfsz s ↔ InRange s.rb) ∧ (InRange s.rb → ∀ call, (s.next call).isSome) := by
  rcases indices_of_reach hs with ⟨-, hx, halloc⟩ | hzero
  · have hcounts : InRange s.rb → Counts bfsz.toNat s.rb s.stored :=
      fun hrange => ⟨hx, halloc, hx.inRange_iff.mp hrange⟩
    refine ⟨⟨fun hexact => hx.inRange_iff.mpr hexact.size, fun hrange => (hcounts hrange).exact⟩,
      fun hrange call => ?_⟩
    obtain ⟨answer, rb', hstep, -⟩ := (hcounts hrange).step call
    rw [Counted.next, hstep]
    rfl
  · exact ⟨⟨fun hexact => absurd hzero hexact.modulus, fun hrange => absurd hzero hrange.1⟩,
      fun hrange => absurd hzero hrange.1⟩

/-- The buffer after `init(bfsz)` and `calls`; `none` where one of them
faults. -/
def after (bfsz : UInt32) (calls : List Call) : Option Counted :=
  calls.foldlM Counted.next (ring bfsz).init

/-- One call more. -/
theorem after_concat (bfsz : UInt32) (calls : List Call) (call : Call) :
    after bfsz (calls ++ [call]) = (after bfsz calls).bind fun s => s.next call := by
  simp only [after, List.foldlM_append, List.foldlM_cons, List.foldlM_nil, bind_pure]
  rfl

/-- **Calls in range come to an end**: where each state that the calls in
front reach in range is in range itself, every call returns. -/
theorem reach_of_after {bfsz : UInt32} {calls : List Call} (hcalls : Call.reset ∉ calls)
    (hrange : ∀ pre, pre <+: calls → ∀ s, after bfsz pre = some s →
      (ring bfsz).Reach CallInRange s → InRange s.rb) {pre : List Call} (hpre : pre <+: calls) :
    ∃ s, after bfsz pre = some s ∧ (ring bfsz).Reach CallInRange s := by
  induction pre using List.reverseRecOn with
  | nil => exact ⟨_, rfl, .start⟩
  | append_singleton pre call ih =>
    have hfront := (List.prefix_append pre [call]).trans hpre
    obtain ⟨s, hs, hreach⟩ := ih hfront
    have hin := hrange pre hfront s hs hreach
    have hcall : call ≠ .reset := fun heq =>
      hcalls (heq ▸ hpre.subset (List.mem_append_right pre (List.mem_singleton_self call)))
    obtain ⟨s', hnext⟩ := Option.isSome_iff_exists.mp ((exact_iff_of_reach hreach).2 hin call)
    refine ⟨s', ?_, .step hreach ⟨hcall, hin⟩ hnext⟩
    rw [after_concat, hs, Option.bind_some, hnext]

/-- **The arithmetic of the ring buffer is exact in the runs that stay in
range**, and in no others: after each of the calls the sizes are right, if and
only if the sum is not cut in any of the states. -/
theorem exact_iff (bfsz : UInt32) {calls : List Call} (hcalls : Call.reset ∉ calls) :
    (∀ pre, pre <+: calls → ∃ s, after bfsz pre = some s ∧ Exact bfsz s) ↔
      ∀ pre, pre <+: calls → ∀ s, after bfsz pre = some s → InRange s.rb := by
  constructor
  · intro hexact
    have hrange : ∀ pre, pre <+: calls → ∀ s, after bfsz pre = some s →
        (ring bfsz).Reach CallInRange s → InRange s.rb := by
      intro pre hpre s hs hreach
      obtain ⟨s₁, hs₁, hexact₁⟩ := hexact pre hpre
      obtain rfl : s₁ = s := Option.some.inj (hs₁.symm.trans hs)
      exact (exact_iff_of_reach hreach).1.mp hexact₁
    intro pre hpre s hs
    obtain ⟨s₁, hs₁, hreach⟩ := reach_of_after hcalls hrange hpre
    obtain rfl : s₁ = s := Option.some.inj (hs₁.symm.trans hs)
    exact hrange pre hpre s₁ hs hreach
  · intro hrange pre hpre
    obtain ⟨s, hs, hreach⟩ :=
      reach_of_after hcalls (fun pre hpre s hs _ => hrange pre hpre s hs) hpre
    exact ⟨s, hs, (exact_iff_of_reach hreach).1.mpr (hrange pre hpre s hs)⟩

/-- A new buffer is in range, but for the largest capacity. -/
theorem inRange_init {bfsz : UInt32} (hroom : bfsz.toNat + 1 < 2 ^ 32) : InRange (init bfsz) := by
  obtain ⟨hx, -⟩ := indices_init hroom
  refine ⟨hx.bufsize_ne_zero, .inl ?_⟩
  rw [hx.size]
  simp only [init, UInt32.toNat_zero]
  omega

/-- One byte is put. -/
def onePut : List Call := [.put [65] 1 (by decide)]

/-- The sum is in range then, but for the two largest capacities. -/
theorem after_onePut (bfsz : UInt32) (hpos : 0 < bfsz.toNat) (hroom : bfsz.toNat + 2 < 2 ^ 32) :
    ∃ s, after bfsz onePut = some s ∧ s.stored = 1 ∧ InRange s.rb := by
  obtain ⟨hx, halloc⟩ := indices_init (Nat.lt_of_succ_lt hroom)
  have hc : Counts bfsz.toNat (init bfsz) 0 :=
    ⟨hx, halloc, hx.inRange_iff.mp (inRange_init (Nat.lt_of_succ_lt hroom))⟩
  have hlen : (1 : UInt32).toNat ≤ [(65 : UInt8)].length := le_rfl
  have hone : (1 : UInt32).toNat = 1 := rfl
  obtain ⟨r', hput, -, hr'⟩ := hc.put_of_fits hlen ((Nat.zero_add 1).trans_le hpos)
  have hnext := Counted.next_put ⟨init bfsz, 0⟩ hlen hput
  refine ⟨_, (after_concat bfsz [] _).trans hnext, rfl, hx.bufsize_ne_zero, .inl ?_⟩
  have hsize := hx.size
  simp only [init, UInt32.toNat_zero, hone] at hr' hsize ⊢
  rw [hsize]
  omega

/-- In a buffer of `2 ^ 31` bytes, for one. -/
theorem exact_iff_half : ∃ s, after 0x80000000 onePut = some s ∧ s.stored = 1 ∧
    Exact 0x80000000 s := by
  obtain ⟨s, hs, hone, hrange⟩ := after_onePut 0x80000000 (by decide) (by decide)
  have hcalls : Call.reset ∉ onePut := by simp [onePut]
  have hruns := (exact_iff 0x80000000 hcalls).mpr ?_
  · obtain ⟨s₁, hs₁, hexact⟩ := hruns onePut (List.prefix_refl _)
    obtain rfl : s₁ = s := Option.some.inj (hs₁.symm.trans hs)
    exact ⟨s₁, hs, hone, hexact⟩
  · intro pre hpre s' hs'
    rcases List.prefix_cons_iff.mp hpre with rfl | ⟨rest, rfl, hrest⟩
    · cases hs'
      exact inRange_init (by decide)
    · obtain rfl := List.prefix_nil.mp hrest
      obtain rfl : s = s' := Option.some.inj (hs.symm.trans hs')
      exact hrange

/-- **From half the range on one `put` is enough**: it fills the buffer, and
the size of a full buffer is no longer right. -/
theorem exists_not_exact {bfsz : UInt32} (hlarge : 2 ^ 31 ≤ bfsz.toNat) :
    ∃ s, (ring bfsz).Reach (fun _ call => call ≠ .reset) s ∧ ¬ Exact bfsz s := by
  have hlt := bfsz.toNat_lt
  by_cases hwrap : bfsz.toNat + 1 < 2 ^ 32
  · obtain ⟨hx, halloc⟩ := indices_init hwrap
    have hcounted : (init bfsz).getsize.toNat = 0 :=
      hx.toNat_getsize_iff.mpr (.inl (by simp only [init, UInt32.toNat_zero]; omega))
    have hc : Counts bfsz.toNat (init bfsz) 0 := ⟨hx, halloc, hcounted⟩
    have hlen : bfsz.toNat ≤ (List.replicate bfsz.toNat (0 : UInt8)).length := by
      rw [List.length_replicate]
    obtain ⟨r', hput, htail, hr'⟩ := hc.put_of_fits hlen (by omega)
    have hnext := Counted.next_put ⟨init bfsz, 0⟩ hlen hput
    have hok : Call.put _ bfsz hlen ≠ .reset := by
      intro heq
      cases heq
    refine ⟨_, .step .start hok hnext, fun hexact => ?_⟩
    have hx' := hx.behind (k := bfsz.toNat) (by omega)
      (Circular.write (init bfsz).buf (init bfsz).r.toNat
        ((List.replicate bfsz.toNat 0).take bfsz.toNat)) htail hr'
    have hsize := hx'.toNat_getsize_iff.mp hexact.size
    simp only [init, UInt32.toNat_zero] at hsize hr'
    omega
  -- the array has no byte, and its size is zero
  · refine ⟨_, .start, fun hexact => hexact.modulus ?_⟩
    rw [← UInt32.toNat_inj]
    change (bfsz + 1).toNat = 0
    rw [UInt32.toNat_add, UInt32.toNat_one]
    omega

/-- **Below half the range every run is exact**, and only there. -/
theorem runs_exact_iff (bfsz : UInt32) :
    (∀ s, (ring bfsz).Reach (fun _ call => call ≠ .reset) s →
        Exact bfsz s ∧ ∀ call, (s.next call).isSome) ↔ bfsz.toNat < 2 ^ 31 := by
  refine ⟨fun h => ?_, fun hroom s hs => ?_⟩
  · by_contra hlarge
    obtain ⟨s, hs, hnot⟩ := exists_not_exact (Nat.le_of_not_lt hlarge)
    exact hnot (h s hs).1
  · exact ⟨(counts_of_reach hroom hs).exact, isSome_next hroom hs⟩

/-- A full buffer of `2 ^ 31` bytes. -/
theorem not_exact_half : ¬ ∀ bfsz : UInt32, ∀ s,
    (ring bfsz).Reach (fun _ call => call ≠ .reset) s → Exact bfsz s := by
  intro h
  obtain ⟨s, hs, hnot⟩ := exists_not_exact (show 2 ^ 31 ≤ (2 ^ 31 : UInt32).toNat by decide)
  exact hnot (h _ s hs)

end RingBuffer

end Utility

end EupuServer
