import EupuServer.Common.Memory
import EupuServer.Common.Numerals
/-!
# Dotted quads

`inet_pton4` and `inet_ntop4`. The scanner keeps the octets before the one
it is in, and writes each into a buffer that nobody initialized.
`scanned_concat` says what one more character makes of a text that has been
scanned, and from it what is accepted is a dotted quad and nothing else
(`inetPton4_spec`).
-/

namespace EupuServer

namespace Inet

open Bytes Numerals

/-! ## The functions -/

/-- The characters of the string at `src`. -/
def chars (src : List UInt8) : List UInt8 := src.takeWhile (· ≠ 0)

/-- Why a conversion ends early: it returns 0, or an access leaves a
buffer. -/
inductive Stop
  | invalid
  | fault
  deriving DecidableEq, Repr

/-- `buf[p]`. -/
def load (buf : List UInt8) (p : ℕ) : Except Stop UInt8 :=
  match buf[p]? with
  | some c => .ok c
  | none => .error .fault

/-- `buf[p] = c`. -/
def store (buf : List UInt8) (p : ℕ) (c : UInt8) : Except Stop (List UInt8) :=
  if p < buf.length then .ok (buf.set p c) else .error .fault

/-- `strchr`, as the place it finds. -/
def strchr (s : List UInt8) (ch : UInt8) : Option ℕ := s.idxOf? ch

/-- `"0123456789"`. -/
def digits : List UInt8 := [48, 49, 50, 51, 52, 53, 54, 55, 56, 57]

/-- The variables of the loop of `inet_pton4`, with `tp` as an offset into
`tmp`. -/
structure Scan4 where
  sawDigit : Bool
  octets : ℕ
  tmp : List UInt8
  tp : ℕ
  deriving DecidableEq, Repr

/-- One character of the loop. -/
def Scan4.char (s : Scan4) (ch : UInt8) : Except Stop Scan4 :=
  match strchr digits ch with
  | some d =>
    (load s.tmp s.tp).bind fun cur =>
      let newvalue := cur.toNat * 10 + d
      if newvalue > 255 then .error .invalid
      else
        (store s.tmp s.tp (UInt8.ofNat newvalue)).bind fun tmp =>
          if s.sawDigit then .ok { s with tmp }
          else if s.octets + 1 > 4 then .error .invalid
          else .ok { s with tmp, octets := s.octets + 1, sawDigit := true }
  | none =>
    if ch = 46 ∧ s.sawDigit then
      if s.octets = 4 then .error .invalid
      else
        (store s.tmp (s.tp + 1) 0).map fun tmp => { s with tmp, tp := s.tp + 1, sawDigit := false }
    else .error .invalid

/-- The loop, with what was in `tmp` before. -/
def scan4 (tmp src : List UInt8) : Except Stop Scan4 :=
  (store tmp 0 0).bind fun tmp => (chars src).foldlM Scan4.char ⟨false, 0, tmp, 0⟩

/-- `inet_pton4` with `dst + doff` for `dst`: what it returns and leaves
there; `none` where an access leaves a buffer. -/
def inetPton4 (tmp src dst : List UInt8) (doff : ℕ) : Option (ℤ × List UInt8) :=
  match scan4 tmp src with
  | .error .fault => none
  | .error .invalid => some (0, dst)
  | .ok s =>
    if s.octets < 4 then some (0, dst)
    else (memcpy dst doff s.tmp 0 4).map fun dst' => (1, dst')

/-- `%u`. -/
def decimal (n : ℕ) : List UInt8 := (numeral 10 n).map fun d => UInt8.ofNat (48 + d)

/-- `%u.%u.%u.%u`, for as many octets as there are. -/
def dotted (quad : List UInt8) : List UInt8 :=
  [46].intercalate (quad.map fun o => decimal o.toNat)

/-- `sprintf_s(buf + off, size, ..)` of `text`, which ends the program where
the text does not fit. -/
def sprintfS (buf : List UInt8) (off size : ℕ) (text : List UInt8) : Option (List UInt8) :=
  if text.length < size then memcpy buf off (text ++ [0]) 0 (text.length + 1) else none

/-- `inet_ntop4` of `src + soff` to `dst + doff`, and whether it returns
`dst`. -/
def inetNtop4 (tmp src : List UInt8) (soff : ℕ) (dst : List UInt8) (doff size : ℕ) :
    Option (Bool × List UInt8) :=
  (readAt src soff 4).bind fun quad =>
    (sprintfS tmp 0 16 (dotted quad)).bind fun tmp =>
      let len := (dotted quad).length
      if len ≥ size then some (false, dst)
      else (memcpy dst doff tmp 0 (len + 1)).map fun dst' => (true, dst')

theorem load_append {p : ℕ} (front : List UInt8) (c : UInt8) (back : List UInt8)
    (hp : p = front.length) : load (front ++ c :: back) p = .ok c := by
  rw [load, hp, List.getElem?_append_right le_rfl, Nat.sub_self]
  rfl

theorem store_append {p : ℕ} (front : List UInt8) (c c' : UInt8) (back : List UInt8)
    (hp : p = front.length) : store (front ++ c :: back) p c' = .ok (front ++ c' :: back) := by
  rw [store, hp, List.set_append_right _ _ le_rfl, Nat.sub_self, if_pos (by simp)]
  rfl

/-! ## What is read -/

/-- The text `g` is a decimal numeral, of any length, for the octet `o`. -/
def Octet (g : List UInt8) (o : UInt8) : Prop :=
  ∃ ds, ds ≠ [] ∧ Spells (strchr digits) g ds ∧ value 10 ds = o.toNat

/-- **The text is a dotted quad**: four octets with a dot between each two. -/
def DottedQuad (text quad : List UInt8) : Prop :=
  ∃ gs, text = [46].intercalate gs ∧ List.Forall₂ Octet gs quad ∧ quad.length = 4

/-- What has been scanned: the octets that are complete, each with its dot,
and the digits of the one that is not. -/
def Scanned (text os : List UInt8) (ds : List ℕ) : Prop :=
  ∃ gs g, text = gs.flatMap (· ++ [46]) ++ g ∧ List.Forall₂ Octet gs os ∧
    Spells (strchr digits) g ds ∧ value 10 ds ≤ 255 ∧ os.length ≤ 3

/-- What one more character makes of it. -/
def quadStep (os : List UInt8) (ds : List ℕ) (ch : UInt8) : Option (List UInt8 × List ℕ) :=
  match strchr digits ch with
  | some d => if value 10 (ds ++ [d]) ≤ 255 then some (os, ds ++ [d]) else none
  | none =>
    if ch = 46 ∧ ds ≠ [] ∧ os.length < 3 then some (os ++ [UInt8.ofNat (value 10 ds)], [])
    else none

variable {text g os : List UInt8} {ds : List ℕ} {o ch : UInt8} {quad : List UInt8}

theorem strchr_digits_dot : strchr digits 46 = none := rfl

theorem toNat_ofNat_value (h : value 10 ds ≤ 255) :
    (UInt8.ofNat (value 10 ds)).toNat = value 10 ds := by
  rw [UInt8.toNat_ofNat', Nat.mod_eq_of_lt (by omega)]

/-- The digits of an octet make one. -/
theorem octet_of_spells (h : Spells (strchr digits) g ds) (hle : value 10 ds ≤ 255)
    (hne : ds ≠ []) :
    Octet g (UInt8.ofNat (value 10 ds)) := ⟨ds, hne, h, (toNat_ofNat_value hle).symm⟩

theorem forall₂_concat_iff {α β : Type*} {R : α → β → Prop} {as : List α} {a : α} {bs : List β} :
    List.Forall₂ R (as ++ [a]) bs ↔ ∃ bs' b, bs = bs' ++ [b] ∧ List.Forall₂ R as bs' ∧ R a b := by
  constructor
  · intro h
    rcases List.eq_nil_or_concat' bs with rfl | ⟨bs, b, rfl⟩
    · exact absurd h.length_eq (by simp)
    · rw [← List.forall₂_reverse_iff, List.reverse_append, List.reverse_append] at h
      obtain ⟨hab, has⟩ := List.forall₂_cons.mp h
      exact ⟨bs, b, rfl, List.forall₂_reverse_iff.mp has, hab⟩
  · rintro ⟨bs, b, rfl, has, hab⟩
    exact List.rel_append has (List.forall₂_cons.mpr ⟨hab, .nil⟩)

theorem intercalate_concat (sep : List UInt8) (gs : List (List UInt8)) (g : List UInt8) :
    sep.intercalate (gs ++ [g]) = gs.flatMap (· ++ sep) ++ g := by
  induction gs with
  | nil => exact List.intercalate_singleton
  | cons g' gs ih =>
    rw [List.cons_append, List.intercalate_cons_of_ne_nil (by simp), ih, List.flatMap_cons,
      List.append_assoc, List.append_assoc, List.append_assoc]

/-- **One more character.** -/
theorem scanned_concat {os' : List UInt8} {ds' : List ℕ} :
    Scanned (text ++ [ch]) os' ds' ↔
      ∃ os ds, Scanned text os ds ∧ quadStep os ds ch = some (os', ds') := by
  constructor
  · rintro ⟨gs, g, htext, hos, hg, hle, hlen⟩
    rcases List.eq_nil_or_concat' g with rfl | ⟨g, c, rfl⟩
    · -- the character is the dot behind the last octet that is complete
      rcases List.eq_nil_or_concat' gs with rfl | ⟨gs, g, rfl⟩
      · simp at htext
      · obtain ⟨os, o, rfl, hos, ds, hne, hg', hval⟩ := forall₂_concat_iff.mp hos
        have htext : text ++ [ch] = gs.flatMap (· ++ [46]) ++ g ++ [46] := by simpa using htext
        obtain ⟨htext, hch⟩ := List.append_inj' htext rfl
        have ho : UInt8.ofNat (value 10 ds) = o := by rw [hval, UInt8.ofNat_toNat]
        rw [List.length_append, List.length_singleton] at hlen
        refine ⟨os, ds, ⟨gs, g, htext, hos, hg', ?_, by omega⟩, ?_⟩
        · rw [hval]
          exact Nat.le_of_lt_succ o.toNat_lt
        · cases hch
          have hds : ds' = [] := List.eq_nil_of_length_eq_zero hg.length_eq.symm
          simp only [quadStep, strchr_digits_dot, hds, ho]
          exact if_pos ⟨trivial, hne, by omega⟩
    · -- the character is a digit
      rw [← List.append_assoc] at htext
      obtain ⟨rfl, hch⟩ := List.append_inj' htext rfl
      cases hch
      obtain ⟨ds, d, rfl⟩ : ∃ ds d, ds' = ds ++ [d] := by
        rcases List.eq_nil_or_concat' ds' with rfl | ⟨ds, d, rfl⟩
        · exact absurd hg.length_eq (by simp)
        · exact ⟨ds, d, rfl⟩
      obtain ⟨hg, hd⟩ := hg.of_concat
      refine ⟨os', ds, ⟨gs, g, rfl, hos, hg, ?_, hlen⟩, ?_⟩
      · exact (value_append_le (by decide) ds [d]).trans hle
      · simp only [quadStep, hd]
        exact if_pos hle
  · rintro ⟨os, ds, ⟨gs, g, rfl, hos, hg, hle, hlen⟩, hstep⟩
    unfold quadStep at hstep
    split at hstep
    · next d hd =>
      split at hstep
      · next hle' =>
        cases hstep
        exact ⟨gs, g ++ [ch], by rw [List.append_assoc], hos, hg.concat hd, hle', hlen⟩
      · cases hstep
    · split at hstep
      · next hdot =>
        obtain ⟨rfl, hne, hlen'⟩ := hdot
        cases hstep
        refine ⟨gs ++ [g], [], by simp, ?_, .nil, by simp, by simp; omega⟩
        exact forall₂_concat_iff.mpr ⟨os, _, rfl, hos, octet_of_spells hg hle hne⟩
      · cases hstep

/-- **The characters one after the other.** -/
theorem scanned_iff {os' : List UInt8} {ds' : List ℕ} : Scanned text os' ds' ↔
    text.foldlM (fun p ch => quadStep p.1 p.2 ch) (([] : List UInt8), ([] : List ℕ)) =
      some (os', ds') := by
  induction text using List.reverseRecOn generalizing os' ds' with
  | nil =>
    constructor
    · rintro ⟨gs, g, htext, hos, hg, -, -⟩
      obtain ⟨hgs, rfl⟩ := List.append_eq_nil_iff.mp htext.symm
      have hgs : gs = [] := by
        cases gs with
        | nil => rfl
        | cons g gs => simp at hgs
      subst hgs
      have hds : ds' = [] := List.eq_nil_of_length_eq_zero hg.length_eq.symm
      rw [hds, List.forall₂_nil_left_iff.mp hos]
      rfl
    · intro h
      cases h
      exact ⟨[], [], rfl, .nil, .nil, Nat.zero_le _, Nat.zero_le _⟩
  | append_singleton text ch ih =>
    rw [scanned_concat, List.foldlM_append]
    simp only [ih]
    constructor
    · rintro ⟨os, ds, hrun, hstep⟩
      rw [hrun]
      simpa using hstep
    · intro h
      obtain ⟨⟨os, ds⟩, hrun, hstep⟩ := Option.bind_eq_some_iff.mp h
      exact ⟨os, ds, hrun, by simpa using hstep⟩

/-- **What is scanned to the end is a dotted quad**, where four octets are. -/
theorem dottedQuad_iff : DottedQuad text quad ↔ ∃ os ds, Scanned text os ds ∧ os.length = 3 ∧
    ds ≠ [] ∧ quad = os ++ [UInt8.ofNat (value 10 ds)] := by
  constructor
  · rintro ⟨gs, rfl, hquad, hfour⟩
    obtain ⟨gs, g, rfl⟩ : ∃ gs' g, gs = gs' ++ [g] := by
      rcases List.eq_nil_or_concat' gs with rfl | h
      · rw [← hquad.length_eq] at hfour
        cases hfour
      · exact h
    obtain ⟨os, o, rfl, hos, ds, hne, hg, hval⟩ := forall₂_concat_iff.mp hquad
    rw [List.length_append, List.length_singleton] at hfour
    have ho : UInt8.ofNat (value 10 ds) = o := by rw [hval, UInt8.ofNat_toNat]
    refine ⟨os, ds, ⟨gs, g, intercalate_concat _ gs g, hos, hg, ?_, by omega⟩, by omega, hne, ?_⟩
    · rw [hval]
      exact Nat.le_of_lt_succ o.toNat_lt
    · rw [ho]
  · rintro ⟨os, ds, ⟨gs, g, rfl, hos, hg, hle, -⟩, hthree, hne, rfl⟩
    refine ⟨gs ++ [g], (intercalate_concat _ gs g).symm, ?_, by simp [hthree]⟩
    exact forall₂_concat_iff.mpr ⟨os, _, rfl, hos, octet_of_spells hg hle hne⟩

/-- A text is a dotted quad for one address. -/
theorem DottedQuad.unique {quad' : List UInt8} (h : DottedQuad text quad)
    (h' : DottedQuad text quad') : quad = quad' := by
  obtain ⟨os, ds, hscanned, -, -, rfl⟩ := dottedQuad_iff.mp h
  obtain ⟨os', ds', hscanned', -, -, rfl⟩ := dottedQuad_iff.mp h'
  rw [scanned_iff] at hscanned hscanned'
  rw [hscanned] at hscanned'
  cases hscanned'
  rfl

/-! ## The loop -/

/-- **The variables of the loop** where `os` and `ds` have been scanned. Of
`tmp` the octets up to `tp` have been written. -/
structure Scan4.At (os : List UInt8) (ds : List ℕ) (s : Scan4) : Prop where
  value_le : value 10 ds ≤ 255
  sawDigit : s.sawDigit = decide (ds ≠ [])
  octets : s.octets = os.length + if ds = [] then 0 else 1
  tp : s.tp = os.length
  tmp : ∃ rest, s.tmp = os ++ UInt8.ofNat (value 10 ds) :: rest ∧ os.length + 1 + rest.length = 4

/-- **One character of the loop** is one step of the scanner, and no access
leaves `tmp`. -/
theorem Scan4.At.char {s : Scan4} (h : s.At os ds) (ch : UInt8) :
    match quadStep os ds ch with
    | some (os', ds') => ∃ s', s.char ch = .ok s' ∧ s'.At os' ds'
    | none => s.char ch = .error .invalid := by
  obtain ⟨hle, hsaw, hoctets, htp, rest, htmp, hlen⟩ := h
  have hload : load s.tmp s.tp = .ok (UInt8.ofNat (value 10 ds)) := by
    rw [htmp, load_append _ _ _ htp]
  have hstore : ∀ c, store s.tmp s.tp c = .ok (os ++ c :: rest) := fun c => by
    rw [htmp, store_append _ _ _ _ htp]
  unfold quadStep Scan4.char
  rcases strchr digits ch with _ | d
  · by_cases hdot : ch = 46 ∧ ds ≠ []
    · obtain ⟨rfl, hne⟩ := hdot
      rw [if_neg hne] at hoctets
      by_cases hfour : os.length = 3
      · simp [hne, hsaw, hoctets, hfour]
      · -- the next octet begins, behind the one that is complete
        obtain ⟨r, rest, rfl⟩ : ∃ r rest', rest = r :: rest' := by
          cases rest with
          | nil => simp at hlen; omega
          | cons r rest => exact ⟨r, rest, rfl⟩
        rw [List.length_cons] at hlen
        have hstore' : store s.tmp (s.tp + 1) 0 =
            .ok ((os ++ [UInt8.ofNat (value 10 ds)]) ++ 0 :: rest) := by
          rw [htmp, List.append_cons, store_append _ _ _ _ (by simp [htp])]
        have hdots : ¬ s.octets = 4 := by omega
        have hlt : os.length < 3 := by omega
        simp only [hsaw, hne, ne_eq, not_false_eq_true, decide_true, and_self, if_true, hdots,
          if_false, hlt, hstore']
        refine ⟨_, rfl, ⟨Nat.zero_le _, rfl, ?_, ?_, rest, rfl, ?_⟩⟩
        · simp [hoctets]
        · simp [htp]
        · simp
          omega
    · have hsaw' : ¬ (ch = 46 ∧ s.sawDigit = true) := by simpa [hsaw] using hdot
      have hstep : ¬ (ch = 46 ∧ ds ≠ [] ∧ os.length < 3) := fun h => hdot ⟨h.1, h.2.1⟩
      simp only [hsaw', hstep, if_false]
  · have hcur : (UInt8.ofNat (value 10 ds)).toNat = value 10 ds := toNat_ofNat_value hle
    simp only [hload, Except.bind, hcur, value_concat]
    by_cases hbig : value 10 ds * 10 + d > 255
    · simp [hbig, Nat.not_le.mpr hbig]
    · have hle' : value 10 (ds ++ [d]) ≤ 255 := by
        rw [value_concat]
        omega
      simp only [hbig, Nat.not_lt.mp hbig, if_true, if_false, hstore]
      by_cases hds : ds = []
      · have hfour : ¬ s.octets + 1 > 4 := by
          rw [hoctets, if_pos hds]
          omega
        simp only [hsaw, hds, ne_eq, not_true_eq_false, decide_false, Bool.false_eq_true, if_false,
          hfour]
        refine ⟨_, rfl, ⟨by simpa [hds] using hle', by simp, ?_, htp, rest, ?_, hlen⟩⟩
        · simp [hoctets, hds]
        · simp [value]
      · simp only [hsaw, hds, ne_eq, not_false_eq_true, decide_true, if_true]
        refine ⟨_, rfl, ⟨hle', ?_, ?_, htp, rest, ?_, hlen⟩⟩
        · simp [hds]
        · simp [hoctets, hds]
        · simp

/-- **The whole loop.** -/
theorem Scan4.At.run {s : Scan4} (h : s.At os ds) (text : List UInt8) :
    match text.foldlM (fun p ch => quadStep p.1 p.2 ch) (os, ds) with
    | some (os', ds') => ∃ s', text.foldlM Scan4.char s = .ok s' ∧ s'.At os' ds'
    | none => text.foldlM Scan4.char s = .error .invalid := by
  induction text generalizing os ds s with
  | nil => exact ⟨s, rfl, h⟩
  | cons ch text ih =>
    have hstep := h.char ch
    simp only [List.foldlM_cons]
    rcases hq : quadStep os ds ch with _ | ⟨os₁, ds₁⟩
    · rw [hq] at hstep
      simp only at hstep
      rw [hstep]
      rfl
    · rw [hq] at hstep
      obtain ⟨s₁, hchar, hat⟩ := hstep
      rw [hchar]
      exact ih hat

theorem scan4_spec {tmp src : List UInt8} (htmp : tmp.length = 4) :
    (∃ os ds s, Scanned (chars src) os ds ∧ scan4 tmp src = .ok s ∧ s.At os ds) ∨
      (∀ os ds, ¬ Scanned (chars src) os ds) ∧ scan4 tmp src = .error .invalid := by
  obtain ⟨t, rest, rfl⟩ : ∃ t rest, tmp = t :: rest := by
    cases tmp with
    | nil => cases htmp
    | cons t rest => exact ⟨t, rest, rfl⟩
  rw [List.length_cons] at htmp
  have hstart : (⟨false, 0, 0 :: rest, 0⟩ : Scan4).At [] [] :=
    ⟨Nat.zero_le _, rfl, rfl, rfl, rest, rfl, by simp; omega⟩
  have hrun := hstart.run (chars src)
  have hscan : scan4 (t :: rest) src = (chars src).foldlM Scan4.char ⟨false, 0, 0 :: rest, 0⟩ := by
    simp [scan4, store, Except.bind]
  rw [hscan]
  rcases hfold : (chars src).foldlM (fun p ch => quadStep p.1 p.2 ch)
    (([] : List UInt8), ([] : List ℕ))
    with _ | ⟨os, ds⟩
  · rw [hfold] at hrun
    refine .inr ⟨fun os ds hscanned => ?_, hrun⟩
    rw [scanned_iff, hfold] at hscanned
    cases hscanned
  · rw [hfold] at hrun
    obtain ⟨s, hs, hat⟩ := hrun
    exact .inl ⟨os, ds, s, scanned_iff.mpr hfold, hs, hat⟩

/-- **`inet_pton4` accepts the dotted quads and nothing else.** Whatever the
string is and whatever was on the stack, no access leaves a buffer, a dotted
quad is written to `dst` and 1 returned, and for any other string 0 is
returned with `dst` left as it was. -/
theorem inetPton4_spec {tmp src dst : List UInt8} {doff : ℕ} (htmp : tmp.length = 4)
    (hdst : doff + 4 ≤ dst.length) :
    (∃ quad, DottedQuad (chars src) quad ∧
        inetPton4 tmp src dst doff = some (1, blit dst doff quad)) ∨
      (∀ quad, ¬ DottedQuad (chars src) quad) ∧ inetPton4 tmp src dst doff = some (0, dst) := by
  rcases @scan4_spec _ src htmp with ⟨os, ds, s, hscanned, hscan, hat⟩ | ⟨hnone, hscan⟩
  · obtain ⟨hle, hsaw, hoctets, htp, rest, hs, hlen⟩ := hat
    by_cases hfour : os.length = 3 ∧ ds ≠ []
    · obtain ⟨hthree, hne⟩ := hfour
      rw [if_neg hne] at hoctets
      have hrest : rest = [] := List.eq_nil_of_length_eq_zero (by omega)
      rw [hrest] at hs
      have hfull : s.tmp.length = 4 := by
        rw [hs]
        simp [hthree]
      refine .inl ⟨_, dottedQuad_iff.mpr ⟨os, ds, hscanned, hthree, hne, rfl⟩, ?_⟩
      simp only [inetPton4, hscan]
      rw [if_neg (by omega), memcpy_eq hdst (by omega), List.drop_zero,
        List.take_of_length_le (by omega), hs]
      rfl
    · refine .inr ⟨fun quad hquad => ?_, ?_⟩
      · -- what has been scanned is determined by the text
        obtain ⟨os', ds', hscanned', hthree, hne, -⟩ := dottedQuad_iff.mp hquad
        rw [scanned_iff] at hscanned hscanned'
        rw [hscanned] at hscanned'
        cases hscanned'
        exact hfour ⟨hthree, hne⟩
      · have hshort : s.octets < 4 := by
          rw [hoctets]
          split_ifs with hds
          · omega
          · have : os.length ≠ 3 := fun h => hfour ⟨h, hds⟩
            omega
        simp only [inetPton4, hscan, if_pos hshort]
  · refine .inr ⟨fun quad hquad => ?_, by simp only [inetPton4, hscan]⟩
    obtain ⟨os, ds, hscanned, -⟩ := dottedQuad_iff.mp hquad
    exact hnone os ds hscanned

/-! ## Quads that are printed -/

theorem strchr_digits (d : ℕ) (hd : d < 10) : strchr digits (UInt8.ofNat (48 + d)) = some d := by
  interval_cases d <;> rfl

/-- What `%u` prints is read. -/
theorem octet_decimal (o : UInt8) : Octet (decimal o.toNat) o :=
  ⟨numeral 10 o.toNat, numeral_ne_nil _ _,
    .of_map _ fun d hd => strchr_digits d (lt_of_mem_numeral (by decide) hd), value_numeral _ _⟩

theorem length_decimal_le (o : UInt8) : (decimal o.toNat).length ≤ 3 := by
  have hlt := o.toNat_lt
  rw [decimal, List.length_map]
  exact length_numeral_le (by decide) (by decide) (by omega)

theorem zero_notMem_decimal (n : ℕ) : (0 : UInt8) ∉ decimal n := by
  intro hmem
  obtain ⟨d, hd, hzero⟩ := List.mem_map.mp hmem
  have hlt : d < 10 := lt_of_mem_numeral (by decide) hd
  have htoNat := congrArg UInt8.toNat hzero
  rw [UInt8.toNat_ofNat', Nat.mod_eq_of_lt (by omega)] at htoNat
  exact absurd htoNat (by simp)

/-- **A quad that is printed is a dotted quad for itself.** -/
theorem dottedQuad_dotted (hquad : quad.length = 4) : DottedQuad (dotted quad) quad := by
  refine ⟨_, rfl, ?_, hquad⟩
  rw [List.forall₂_map_left_iff]
  exact List.forall₂_same.mpr fun o _ => octet_decimal o

theorem exists_quad (hquad : quad.length = 4) : ∃ a b c d, quad = [a, b, c, d] := by
  match quad, hquad with
  | [a, b, c, d], _ => exact ⟨a, b, c, d, rfl⟩

theorem dotted_eq (a b c d : UInt8) : dotted [a, b, c, d] = decimal a.toNat ++ 46 ::
    (decimal b.toNat ++ 46 :: (decimal c.toNat ++ 46 :: decimal d.toNat)) := by
  simp [dotted]

theorem length_dotted_le (hquad : quad.length = 4) : (dotted quad).length ≤ 15 := by
  obtain ⟨a, b, c, d, rfl⟩ := exists_quad hquad
  have ha := length_decimal_le a
  have hb := length_decimal_le b
  have hc := length_decimal_le c
  have hd := length_decimal_le d
  rw [dotted_eq]
  simp only [List.length_append, List.length_cons]
  omega

theorem zero_notMem_dotted (hquad : quad.length = 4) : (0 : UInt8) ∉ dotted quad := by
  obtain ⟨a, b, c, d, rfl⟩ := exists_quad hquad
  rw [dotted_eq]
  simp [zero_notMem_decimal]

theorem chars_append_nul (h : (0 : UInt8) ∉ text) (tail : List UInt8) :
    chars (text ++ 0 :: tail) = text := by
  rw [chars, List.takeWhile_append_of_pos fun c hc => ?_, List.takeWhile_cons_of_neg (by simp),
    List.append_nil]
  exact decide_eq_true fun hzero => h (hzero ▸ hc)

theorem chars_eq (h : (0 : UInt8) ∉ text) : chars text = text := by
  have hall : (text ++ []).takeWhile (· ≠ 0) = text ++ List.takeWhile (· ≠ 0) [] :=
    List.takeWhile_append_of_pos fun c hc => decide_eq_true fun hzero => h (hzero ▸ hc)
  rwa [List.append_nil, List.takeWhile_nil, List.append_nil] at hall

/-- **`inet_ntop4`** prints where there is room for the text and its NUL. -/
theorem inetNtop4_eq {tmp src dst : List UInt8} {soff doff size : ℕ} (htmp : tmp.length = 16)
    (hsrc : soff + 4 ≤ src.length) (hdst : doff + size ≤ dst.length) :
    inetNtop4 tmp src soff dst doff size =
      if (dotted ((src.drop soff).take 4)).length < size then
        some (true, blit dst doff (dotted ((src.drop soff).take 4) ++ [0]))
      else some (false, dst) := by
  have hfour : ((src.drop soff).take 4).length = 4 := by
    rw [List.length_take, List.length_drop]
    omega
  unfold inetNtop4
  rw [readAt_eq hsrc, Option.bind_some]
  generalize (src.drop soff).take 4 = quad at hfour ⊢
  have hshort := length_dotted_le hfour
  have hlen : (dotted quad ++ [0]).length = (dotted quad).length + 1 := by simp
  have hprint : sprintfS tmp 0 16 (dotted quad) = some (blit tmp 0 (dotted quad ++ [0])) := by
    rw [sprintfS, if_pos (by omega), memcpy_eq (by omega) (by omega), List.drop_zero,
      List.take_of_length_le (by omega)]
  have hlen' : (blit tmp 0 (dotted quad ++ [0])).length = 16 := by
    rw [length_blit (by omega), htmp]
  rw [hprint, Option.bind_some]
  by_cases hsize : (dotted quad).length < size
  · have hcopy : memcpy dst doff (blit tmp 0 (dotted quad ++ [0])) 0 ((dotted quad).length + 1) =
        some (blit dst doff (dotted quad ++ [0])) := by
      rw [memcpy_eq (by omega) (by omega), List.drop_zero, take_blit_zero hlen.symm]
    simp only [if_pos hsize, if_neg (Nat.not_le.mpr hsize), hcopy, Option.map_some]
  · simp only [if_neg hsize, if_pos (Nat.not_lt.mp hsize)]

/-- **A quad that was printed is read back**, whatever stands behind the
text. -/
theorem inetPton4_dotted {tmp dst tail : List UInt8} {doff : ℕ} (htmp : tmp.length = 4)
    (hquad : quad.length = 4) (hdst : doff + 4 ≤ dst.length) :
    inetPton4 tmp (dotted quad ++ 0 :: tail) dst doff = some (1, blit dst doff quad) := by
  have hchars := chars_append_nul (zero_notMem_dotted hquad) tail
  rcases @inetPton4_spec _ (dotted quad ++ 0 :: tail) _ _ htmp hdst with ⟨q, hq, heq⟩ | ⟨hnone, -⟩
  · rw [hchars] at hq
    rw [heq, DottedQuad.unique hq (dottedQuad_dotted hquad)]
  · rw [hchars] at hnone
    exact absurd (dottedQuad_dotted hquad) (hnone quad)

end Inet

end EupuServer
