import EupuServer.Common.Bytes
import Mathlib.Data.Nat.Digits.Lemmas
/-!
# Numerals

Positional numerals in any base, as lists of digits with the highest one
first, and as texts over an alphabet. A numeral is read one digit after the
other, and what has been read is at no time more than the whole
(`value_append_le`), so a reader that gives up as soon as it is past a bound
gives up exactly where the numeral is past it.
-/

namespace EupuServer

namespace Numerals

variable {b n d k : ℕ} {ds es : List ℕ}

/-! ## Digits -/

/-- The number that digits stand for in base `b`. -/
def value (b : ℕ) (ds : List ℕ) : ℕ := ds.foldl (fun v d => v * b + d) 0

/-- The digits of `n` in base `b`, with no zero in front. -/
def numeral (b n : ℕ) : List ℕ := if n = 0 then [0] else (Nat.digits b n).reverse

@[simp] theorem value_nil (b : ℕ) : value b [] = 0 := rfl

@[simp] theorem value_concat (b : ℕ) (ds : List ℕ) (d : ℕ) :
    value b (ds ++ [d]) = value b ds * b + d := by
  simp [value]

/-- **What has been read is no more than the whole.** -/
theorem value_append_le (hb : 0 < b) (ds es : List ℕ) : value b ds ≤ value b (ds ++ es) := by
  induction es using List.reverseRecOn with
  | nil => rw [List.append_nil]
  | append_singleton es d ih =>
    have hmul : value b (ds ++ es) ≤ value b (ds ++ es) * b := Nat.le_mul_of_pos_right _ hb
    rw [← List.append_assoc, value_concat]
    omega

theorem value_reverse (b : ℕ) (ds : List ℕ) : value b ds.reverse = Nat.ofDigits b ds := by
  induction ds with
  | nil => rfl
  | cons d ds ih =>
    rw [List.reverse_cons, value_concat, ih, Nat.ofDigits_cons]
    ring

/-- **A numeral stands for its number.** -/
theorem value_numeral (b n : ℕ) : value b (numeral b n) = n := by
  unfold numeral
  split
  · next hzero => simp [value, hzero]
  · rw [value_reverse, Nat.ofDigits_digits]

theorem numeral_ne_nil (b n : ℕ) : numeral b n ≠ [] := by
  unfold numeral
  split
  · exact List.cons_ne_nil _ _
  · next hn => exact List.reverse_ne_nil_iff.mpr (Nat.digits_ne_nil_iff_ne_zero.mpr hn)

theorem lt_of_mem_numeral (hb : 1 < b) (hd : d ∈ numeral b n) : d < b := by
  unfold numeral at hd
  split at hd
  · rw [List.mem_singleton.mp hd]
    omega
  · exact Nat.digits_lt_base hb (List.mem_reverse.mp hd)

theorem length_numeral_le (hb : 1 < b) (hk : 0 < k) (hn : n < b ^ k) :
    (numeral b n).length ≤ k := by
  unfold numeral
  split
  · exact hk
  · rw [List.length_reverse]
    exact (Nat.digits_length_le_iff hb n).mpr hn

/-! ## Texts -/

/-- **The text `cs` spells the digits `ds`**, where `digit` reads one
character. -/
def Spells (digit : UInt8 → Option ℕ) (cs : List UInt8) (ds : List ℕ) : Prop :=
  cs.map digit = ds.map some

variable {digit : UInt8 → Option ℕ} {cs : List UInt8} {c : UInt8}

namespace Spells

theorem nil : Spells digit [] [] := rfl

theorem length_eq (h : Spells digit cs ds) : cs.length = ds.length := by
  have hlen := congrArg List.length h
  rwa [List.length_map, List.length_map] at hlen

theorem cons_iff : Spells digit (c :: cs) ds ↔
    ∃ d es, ds = d :: es ∧ digit c = some d ∧ Spells digit cs es := by
  constructor
  · intro h
    cases ds with
    | nil => cases h
    | cons d es =>
      obtain ⟨hc, hcs⟩ := List.cons.inj h
      exact ⟨d, es, rfl, hc, hcs⟩
  · rintro ⟨d, es, rfl, hc, hcs⟩
    exact congrArg₂ List.cons hc hcs

theorem concat (h : Spells digit cs ds) (hc : digit c = some d) :
    Spells digit (cs ++ [c]) (ds ++ [d]) := by
  rw [Spells, List.map_append, List.map_append, h, List.map_singleton, List.map_singleton, hc]

theorem of_concat (h : Spells digit (cs ++ [c]) (ds ++ [d])) :
    Spells digit cs ds ∧ digit c = some d := by
  rw [Spells, List.map_append, List.map_append] at h
  obtain ⟨hcs, hc⟩ := List.append_inj' h rfl
  exact ⟨hcs, (List.cons.inj hc).1⟩

/-- A character of a spelling is a digit. -/
theorem of_mem (h : Spells digit cs ds) (hc : c ∈ cs) : ∃ d ∈ ds, digit c = some d := by
  have hmem : digit c ∈ ds.map some := h ▸ List.mem_map_of_mem hc
  obtain ⟨d, hd, heq⟩ := List.mem_map.mp hmem
  exact ⟨d, hd, heq.symm⟩

/-- A text that is written digit by digit is read so. -/
theorem of_map (write : ℕ → UInt8) (h : ∀ d ∈ ds, digit (write d) = some d) :
    Spells digit (ds.map write) ds := by
  rw [Spells, List.map_map]
  exact List.map_congr_left h

/-- **A spelling ends at the first character that is no digit.** -/
theorem append_inj {cs' rest rest' : List UInt8} (h : Spells digit cs ds)
    (h' : Spells digit cs' es) (hrest : ∀ c ∈ rest.head?, digit c = none)
    (hrest' : ∀ c ∈ rest'.head?, digit c = none) (heq : cs ++ rest = cs' ++ rest') :
    cs = cs' ∧ rest = rest' := by
  induction cs generalizing cs' ds es with
  | nil =>
    cases cs' with
    | nil => exact ⟨rfl, heq⟩
    | cons c cs' =>
      obtain ⟨d, -, -, hd, -⟩ := cons_iff.mp h'
      have hnone : digit c = none := hrest c (by rw [show rest = c :: (cs' ++ rest') from heq]; rfl)
      rw [hnone] at hd
      cases hd
  | cons c cs ih =>
    obtain ⟨d, ds, rfl, hd, hcs⟩ := cons_iff.mp h
    cases cs' with
    | nil =>
      have hnone : digit c = none := hrest' c
        (by rw [← show c :: (cs ++ rest) = rest' from heq]; rfl)
      rw [hnone] at hd
      cases hd
    | cons c' cs' =>
      obtain ⟨d', es, rfl, -, hcs'⟩ := cons_iff.mp h'
      obtain ⟨rfl, htail⟩ := List.cons.inj heq
      obtain ⟨rfl, hr⟩ := ih hcs hcs' htail
      exact ⟨rfl, hr⟩

/-- What is spelled in front of others is a part of what is. -/
theorem of_append {cs' : List UInt8} (h : Spells digit (cs ++ cs') es) :
    ∃ ds ds', es = ds ++ ds' ∧ Spells digit cs ds ∧ Spells digit cs' ds' := by
  rw [Spells, List.map_append] at h
  obtain ⟨ds, ds', rfl, hds, hds'⟩ := List.map_eq_append_iff.mp h.symm
  exact ⟨ds, ds', rfl, hds.symm, hds'.symm⟩

/-- A text spells one list of digits. -/
theorem unique (h : Spells digit cs ds) (h' : Spells digit cs es) : ds = es :=
  List.map_injective_iff.mpr (Option.some_injective ℕ) (h.symm.trans h')

/-- What one reader spells another does that reads the same. -/
theorem mono {digit' : UInt8 → Option ℕ} (h : Spells digit cs ds)
    (hmono : ∀ c d, digit c = some d → digit' c = some d) : Spells digit' cs ds := by
  refine Eq.trans (List.map_congr_left fun c hc => ?_) h
  obtain ⟨d, -, hd⟩ := h.of_mem hc
  rw [hd, hmono c d hd]

end Spells

end Numerals

end EupuServer
