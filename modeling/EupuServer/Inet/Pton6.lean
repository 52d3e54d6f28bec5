import EupuServer.Inet.Quad
/-!
# Reading IPv6 addresses

`inet_pton6` reads groups of hexadecimal digits with a colon behind each but
the last, at most one `::`, and a dotted quad in place of the last two
groups. What it has read stands at the front of a buffer of sixteen zeros,
and where there was a `::` it is moved apart at the end. The grammar
(`Reads`) is that of the code: a colon behind the last group is accepted,
and a `::` that stands for no group at all is not ignored, as the comment on
the function has it, but zeroes all that follows it (`spread`).
-/

namespace EupuServer

namespace Inet

open Bytes Numerals

/-! ## The function -/

/-- `"0123456789abcdef"`. -/
def xdigitsL : List UInt8 := digits ++ [97, 98, 99, 100, 101, 102]

/-- `"0123456789ABCDEF"`. -/
def xdigitsU : List UInt8 := digits ++ [65, 66, 67, 68, 69, 70]

/-- The digit that `ch` is in the one or the other. -/
def xdigit (ch : UInt8) : Option ℕ :=
  match strchr xdigitsL ch with
  | some d => some d
  | none => strchr xdigitsU ch

/-- The variables of the loop of `inet_pton6`, with `tp` and `colonp` as
offsets into `tmp`. -/
structure Scan6 where
  tmp : List UInt8
  tp : ℕ
  colonp : Option ℕ
  sawXdigit : Bool
  val : ℕ
  deriving DecidableEq, Repr

namespace Scan6

/-- The two stores of a group, where there is room for them. -/
def group (s : Scan6) : Except Stop Scan6 :=
  if s.tp + 2 > 16 then .error .invalid
  else
    (store s.tmp s.tp (UInt8.ofNat (s.val >>> 8))).bind fun tmp =>
      (store tmp (s.tp + 1) (UInt8.ofNat s.val)).map fun tmp => { s with tmp, tp := s.tp + 2 }

/-- The call of `inet_pton4`, where there is room for four octets. -/
def quad (s : Scan6) (tmp4 curtok : List UInt8) : Except Stop Scan6 :=
  if s.tp + 4 ≤ 16 then
    match inetPton4 tmp4 curtok s.tmp s.tp with
    | none => .error .fault
    | some (ret, tmp) =>
      if ret > 0 then .ok { s with tmp, tp := s.tp + 4, sawXdigit := false } else .error .invalid
  else .error .invalid

/-- The loop, with the token it is in. -/
def loop (tmp4 curtok : List UInt8) (s : Scan6) : List UInt8 → Except Stop Scan6
  | [] => .ok s
  | ch :: src =>
    match xdigit ch with
    | some d =>
      let val := (s.val <<< 4) % 2 ^ 32 ||| d
      if val > 0xffff then .error .invalid
      else loop tmp4 curtok { s with val, sawXdigit := true } src
    | none =>
      if ch = 58 then
        if s.sawXdigit then
          s.group.bind fun s => loop tmp4 src { s with sawXdigit := false, val := 0 } src
        else
          match s.colonp with
          | some _ => .error .invalid
          | none => loop tmp4 src { s with colonp := some s.tp } src
      else if ch = 46 then s.quad tmp4 curtok
      else .error .invalid

/-- The loop and the group that it ends in. -/
def scan (tmp4 curtok : List UInt8) (s : Scan6) (src : List UInt8) : Except Stop Scan6 :=
  (s.loop tmp4 curtok src).bind fun s => if s.sawXdigit then s.group else .ok s

end Scan6

/-- One byte of the `n` from `colonp` on is moved to the end. -/
def shiftByte (colonp n : ℕ) (tmp : List UInt8) (i : ℕ) : Except Stop (List UInt8) :=
  (load tmp (colonp + (n - i))).bind fun c =>
    (store tmp (16 - i) c).bind fun tmp => store tmp (colonp + (n - i)) 0

/-- All of them, from the last one on. -/
def shift (tmp : List UInt8) (colonp n : ℕ) : Except Stop (List UInt8) :=
  (List.range' 1 n).foldlM (shiftByte colonp n) tmp

/-- Where the first token begins. -/
def start6 (src : List UInt8) : Option (List UInt8) :=
  if src.head? = some 58 then if src.tail.head? = some 58 then some src.tail else none else some src

/-- The address that is read, with what is on the stack in `inet_pton4`. -/
def address6 (tmp4 src : List UInt8) : Except Stop (List UInt8) :=
  match start6 (chars src) with
  | none => .error .invalid
  | some text =>
    (Scan6.scan tmp4 text ⟨List.replicate 16 0, 0, none, false, 0⟩ text).bind fun s =>
      match s.colonp with
      | some colonp => shift s.tmp colonp (s.tp - colonp)
      | none => if s.tp = 16 then .ok s.tmp else .error .invalid

/-- `inet_pton6`: what it returns and leaves at `dst`; `none` where an
access leaves a buffer. -/
def inetPton6 (tmp4 src dst : List UInt8) : Option (ℤ × List UInt8) :=
  match address6 tmp4 src with
  | .error .fault => none
  | .error .invalid => some (0, dst)
  | .ok tmp => (memcpy dst 0 tmp 0 16).map fun dst' => (1, dst')

/-! ## What is read -/

/-- The text `g` is a hexadecimal numeral for the 16 bits `w`. -/
def Group (g : List UInt8) (w : ℕ) : Prop :=
  ∃ ds, ds ≠ [] ∧ Spells xdigit g ds ∧ value 16 ds = w ∧ w ≤ 0xffff

/-- **What the text says** from a token on, behind `p` bytes and after a `::`
at `c`: the bytes, and where there is a `::` in all. -/
inductive Reads : Option ℕ → ℕ → List UInt8 → List UInt8 → Option ℕ → Prop
  | done {c : Option ℕ} {p : ℕ} : Reads c p [] [] c
  | last {c : Option ℕ} {p w : ℕ} {g : List UInt8} (hg : Group g w) : Reads c p g (toBE 2 w) c
  | group {c c' : Option ℕ} {p w : ℕ} {g text bs : List UInt8} (hg : Group g w)
      (h : Reads c (p + 2) text bs c') : Reads c p (g ++ 58 :: text) (toBE 2 w ++ bs) c'
  | gap {c' : Option ℕ} {p : ℕ} {text bs : List UInt8} (h : Reads (some p) p text bs c') :
    Reads none p (58 :: text) bs c'
  | quad {c : Option ℕ} {p : ℕ} {text q : List UInt8} (h : DottedQuad text q) : Reads c p text q c

/-- **The bytes of an address** from those that were read: with a `::` what
follows it stands at the end, unless it has its place already, which is then
zeroed. -/
def spread (bs : List UInt8) (c : ℕ) : List UInt8 :=
  if bs.length < 16 then bs.take c ++ List.replicate (16 - bs.length) 0 ++ bs.drop c
  else bs.take c ++ List.replicate (16 - c) 0

/-- **The text is an address.** -/
inductive Address6 (text : List UInt8) : List UInt8 → Prop
  | plain {bs t : List UInt8} (ht : start6 text = some t) (h : Reads none 0 t bs none)
      (hlen : bs.length = 16) : Address6 text bs
  | gap {bs t : List UInt8} {c : ℕ} (ht : start6 text = some t) (h : Reads none 0 t bs (some c))
      (hlen : bs.length ≤ 16) : Address6 text (spread bs c)

variable {text g bs : List UInt8} {ds : List ℕ} {c c' : Option ℕ} {p : ℕ} {ch : UInt8}

theorem xdigit_colon : xdigit 58 = none := rfl

theorem xdigit_dot : xdigit 46 = none := rfl

/-- What `strchr` finds has its place in the string. -/
theorem strchr_eq_some {l : List UInt8} {d : ℕ} (h : strchr l ch = some d) : l[d]? = some ch := by
  obtain ⟨hlt, hd, -⟩ := List.idxOf?_eq_some_iff.mp h
  rw [List.getElem?_eq_getElem hlt, hd]

/-- What follows a numeral ends it. -/
theorem ends_nil : ∀ c ∈ ([] : List UInt8).head?, xdigit c = none := by simp

theorem ends_colon (rest : List UInt8) : ∀ c ∈ (58 :: rest).head?, xdigit c = none := by
  rintro c ⟨⟩
  exact xdigit_colon

theorem ends_dot (rest : List UInt8) : ∀ c ∈ (46 :: rest).head?, xdigit c = none := by
  rintro c ⟨⟩
  exact xdigit_dot

theorem xdigit_of_digits {d : ℕ} (h : strchr digits ch = some d) : xdigit ch = some d := by
  have hch := strchr_eq_some h
  have hd : d < 10 := (List.getElem?_eq_some_iff.mp hch).1
  interval_cases d <;> obtain rfl := Option.some.inj hch <;> rfl

theorem xdigit_lt {d : ℕ} (h : xdigit ch = some d) : d < 16 := by
  unfold xdigit at h
  split at h
  · next d' hL =>
    cases h
    exact (List.getElem?_eq_some_iff.mp (strchr_eq_some hL)).1
  · exact (List.getElem?_eq_some_iff.mp (strchr_eq_some h)).1

/-- A numeral that is an octet in base 10 has at most 16 bits in base 16. -/
theorem value_sixteen_le (h : value 10 ds ≤ 255) : value 16 ds ≤ 0xffff := by
  have hle : (value 10 ds ≤ 9 → value 16 ds = value 10 ds) ∧
      (value 10 ds ≤ 99 → value 16 ds ≤ 2 * value 10 ds) ∧
      (value 10 ds ≤ 999 → value 16 ds ≤ 4 * value 10 ds) := by
    clear h
    induction ds using List.reverseRecOn with
    | nil => simp
    | append_singleton ds d ih =>
      simp only [value_concat]
      omega
  omega

/-- A dotted quad begins with digits and a dot. -/
theorem DottedQuad.front {q : List UInt8} (h : DottedQuad text q) : ∃ g ds rest,
    text = g ++ 46 :: rest ∧ Spells xdigit g ds ∧ ds ≠ [] ∧ value 16 ds ≤ 0xffff := by
  obtain ⟨gs, rfl, hquad, hfour⟩ := h
  rcases gs with _ | ⟨g, _ | ⟨g', gs⟩⟩
  · cases hquad
    cases hfour
  · obtain ⟨o, q, -, hnil, rfl⟩ := List.forall₂_cons_left_iff.mp hquad
    cases hnil
    cases hfour
  · obtain ⟨o, q, ⟨ds, hne, hg, hval⟩, -, rfl⟩ := List.forall₂_cons_left_iff.mp hquad
    refine ⟨g, ds, [46].intercalate (g' :: gs), ?_, hg.mono fun c d => xdigit_of_digits, hne, ?_⟩
    · rw [List.intercalate_cons_cons, List.append_assoc]
      rfl
    · refine value_sixteen_le ?_
      rw [hval]
      exact Nat.le_of_lt_succ o.toNat_lt

/-- A numeral that was read is no larger than a group. -/
theorem Reads.value_le {text' : List UInt8} (h : Reads c p (g ++ text') bs c')
    (hg : Spells xdigit g ds) : value 16 ds ≤ 0xffff := by
  -- the numeral that the grammar has there is the longer one
  have hlonger : ∀ {g' rest : List UInt8} {ds' : List ℕ}, Spells xdigit g' ds' →
      (∀ c ∈ rest.head?, xdigit c = none) → g ++ text' = g' ++ rest → value 16 ds' ≤ 0xffff →
      value 16 ds ≤ 0xffff := by
    intro g' rest ds' hg' hrest heq hle
    rcases List.append_eq_append_iff.mp heq with ⟨t, rfl, -⟩ | ⟨t, rfl, rfl⟩
    · obtain ⟨es, es', rfl, hes, -⟩ := hg'.of_append
      rw [hg.unique hes]
      exact (value_append_le (by decide) es es').trans hle
    · obtain ⟨es, es', rfl, hes, hes'⟩ := hg.of_append
      cases t with
      | nil =>
        rw [List.eq_nil_of_length_eq_zero hes'.length_eq.symm, List.append_nil, hes.unique hg']
        exact hle
      | cons c t =>
        obtain ⟨d, -, -, hd, -⟩ := Spells.cons_iff.mp hes'
        rw [hrest c rfl] at hd
        cases hd
  generalize ht : g ++ text' = t at h
  cases h with
  | done => exact hlonger .nil ends_nil ht (Nat.zero_le _)
  | @last _ _ w g' hg' =>
    obtain ⟨ds', -, hds', hval, hle⟩ := hg'
    exact hlonger hds' ends_nil (by rw [ht, List.append_nil]) (hval ▸ hle)
  | group hg' =>
    obtain ⟨ds', -, hds', hval, hle⟩ := hg'
    exact hlonger hds' (ends_colon _) ht (hval ▸ hle)
  | gap => exact hlonger .nil (ends_colon _) ht (Nat.zero_le _)
  | quad hq =>
    obtain ⟨g', ds', rest, rfl, hds', -, hle⟩ := hq.front
    exact hlonger hds' (ends_dot _) ht hle

/-- **What can be read behind a numeral**, by the character that ends it. -/
theorem Reads.inv {rest : List UInt8} (h : Reads c p (g ++ rest) bs c') (hg : Spells xdigit g ds)
    (hrest : ∀ ch ∈ rest.head?, xdigit ch = none) :
    (rest = [] ∧ c' = c ∧ (ds = [] ∧ bs = [] ∨ ds ≠ [] ∧ bs = toBE 2 (value 16 ds))) ∨
      (∃ src bs', rest = 58 :: src ∧ ds ≠ [] ∧ bs = toBE 2 (value 16 ds) ++ bs' ∧
        Reads c (p + 2) src bs' c') ∨
      (∃ src, rest = 58 :: src ∧ ds = [] ∧ c = none ∧ Reads (some p) p src bs c') ∨
      ∃ src, rest = 46 :: src ∧ DottedQuad (g ++ rest) bs ∧ c' = c := by
  generalize ht : g ++ rest = t at h ⊢
  cases h with
  | done =>
    obtain ⟨rfl, rfl⟩ := List.append_eq_nil_iff.mp ht
    exact .inl ⟨rfl, rfl, .inl ⟨List.eq_nil_of_length_eq_zero hg.length_eq.symm, rfl⟩⟩
  | last hg' =>
    obtain ⟨ds', hne, hds', rfl, -⟩ := hg'
    obtain ⟨rfl, rfl⟩ := hg.append_inj hds' hrest ends_nil (by rw [ht, List.append_nil])
    rw [hg.unique hds']
    exact .inl ⟨rfl, rfl, .inr ⟨hne, rfl⟩⟩
  | group hg' h =>
    obtain ⟨ds', hne, hds', rfl, -⟩ := hg'
    obtain ⟨rfl, rfl⟩ := hg.append_inj hds' hrest (ends_colon _) ht
    rw [hg.unique hds']
    exact .inr (.inl ⟨_, _, rfl, hne, rfl, h⟩)
  | gap h =>
    obtain ⟨rfl, rfl⟩ := hg.append_inj .nil hrest (ends_colon _) ht
    exact .inr (.inr (.inl ⟨_, rfl, List.eq_nil_of_length_eq_zero hg.length_eq.symm, rfl, h⟩))
  | quad hq =>
    obtain ⟨g', ds', src, rfl, hds', -, -⟩ := hq.front
    obtain ⟨rfl, rfl⟩ := hg.append_inj hds' hrest (ends_dot _) ht
    exact .inr (.inr (.inr ⟨src, rfl, hq, rfl⟩))

/-- **A text says one thing.** -/
theorem Reads.unique {bs₂ : List UInt8} {c₂ : Option ℕ} (h : Reads c p text bs c')
    (h' : Reads c p text bs₂ c₂) : bs₂ = bs ∧ c₂ = c' := by
  induction h generalizing bs₂ c₂ with
  | done =>
    rcases Reads.inv (g := []) h' .nil ends_nil with ⟨-, rfl, ⟨-, rfl⟩ | ⟨hne, -⟩⟩ |
      ⟨_, _, hrest, -⟩ | ⟨_, hrest, -⟩ | ⟨_, hrest, -⟩
    · exact ⟨rfl, rfl⟩
    · exact absurd rfl hne
    all_goals cases hrest
  | @last c p w g hg =>
    obtain ⟨ds, hne, hds, rfl, -⟩ := hg
    rw [← List.append_nil g] at h'
    rcases h'.inv hds ends_nil with ⟨-, rfl, ⟨hnil, -⟩ | ⟨-, rfl⟩⟩ | ⟨_, _, hrest, -⟩ |
      ⟨_, hrest, -⟩ | ⟨_, hrest, -⟩
    · exact absurd hnil hne
    · exact ⟨rfl, rfl⟩
    all_goals cases hrest
  | group hg h ih =>
    obtain ⟨ds, hne, hds, rfl, -⟩ := hg
    rcases h'.inv hds (ends_colon _) with ⟨hrest, -⟩ | ⟨_, bs', hrest, -, rfl, h''⟩ |
      ⟨_, -, hnil, -⟩ | ⟨_, hrest, -⟩
    · cases hrest
    · cases hrest
      obtain ⟨rfl, rfl⟩ := ih h''
      exact ⟨rfl, rfl⟩
    · exact absurd hnil hne
    · cases hrest
  | gap h ih =>
    rcases Reads.inv (g := []) h' .nil (ends_colon _) with ⟨hrest, -⟩ | ⟨_, _, -, hne, -⟩ |
      ⟨_, hrest, -, -, h''⟩ | ⟨_, hrest, -⟩
    · cases hrest
    · exact absurd rfl hne
    · cases hrest
      exact ih h''
    · cases hrest
  | quad hq =>
    obtain ⟨g, ds, rest, rfl, hds, -, -⟩ := hq.front
    rcases h'.inv hds (ends_dot _) with ⟨hrest, -⟩ | ⟨_, _, hrest, -⟩ | ⟨_, hrest, -⟩ |
      ⟨_, -, hq', rfl⟩
    · cases hrest
    · cases hrest
    · cases hrest
    · exact ⟨hq'.unique hq, rfl⟩

/-- A `::` stands between the bytes that are read, or before them. -/
theorem Reads.gap_le {k : ℕ} (h : Reads c p text bs c') (hk : c' = some k) :
    c = some k ∨ p ≤ k ∧ k ≤ p + bs.length := by
  induction h with
  | done => exact .inl hk
  | last => exact .inl hk
  | group hg h ih =>
    rcases ih hk with hc | hle
    · exact .inl hc
    · rw [List.length_append, length_toBE]
      exact .inr (by omega)
  | gap h ih =>
    rcases ih hk with hc | hle
    · cases hc
      exact .inr ⟨le_rfl, Nat.le_add_right _ _⟩
    · exact .inr hle
  | quad => exact .inl hk

theorem length_spread (hlen : bs.length ≤ 16) {k : ℕ} (hk : k ≤ bs.length) :
    (spread bs k).length = 16 := by
  unfold spread
  split <;> simp <;> omega

/-! ## The loop -/

/-- **The variables of the loop** where the bytes `bs` have been written and
the digits `ds` of a token been read. -/
structure Scan6.At (bs : List UInt8) (ds : List ℕ) (c : Option ℕ) (s : Scan6) : Prop where
  tmp : s.tmp = bs ++ List.replicate (16 - bs.length) 0
  tp : s.tp = bs.length
  colonp : s.colonp = c
  sawXdigit : s.sawXdigit = decide (ds ≠ [])
  val : s.val = value 16 ds
  value_le : value 16 ds ≤ 0xffff
  length_le : bs.length ≤ 16

/-- What has been read at the end. -/
structure Scan6.Final (bs : List UInt8) (c : Option ℕ) (s : Scan6) : Prop where
  tmp : s.tmp = bs ++ List.replicate (16 - bs.length) 0
  tp : s.tp = bs.length
  colonp : s.colonp = c

namespace Scan6

variable {s : Scan6}

/-- The two stores of a group. -/
theorem At.group (h : s.At bs ds c) :
    if bs.length + 2 ≤ 16 then
      ∃ s', s.group = .ok s' ∧ s'.sawXdigit = s.sawXdigit ∧
        s'.Final (bs ++ toBE 2 (value 16 ds)) c
    else s.group = .error .invalid := by
  obtain ⟨htmp, htp, hc, hsaw, hval, hle, hlen⟩ := h
  split
  · next hroom =>
    have hfree : 16 - bs.length = (16 - (bs.length + 2)) + 1 + 1 := by omega
    rw [hfree, List.replicate_succ, List.replicate_succ] at htmp
    have hhigh : s.val >>> 8 = value 16 ds / 256 := by rw [hval, Nat.shiftRight_eq_div_pow]
    have hlow := store_append (bs ++ [UInt8.ofNat (value 16 ds / 256)]) 0
      (UInt8.ofNat (value 16 ds))
      (List.replicate (16 - (bs.length + 2)) 0) (show s.tp + 1 = _ by simp [htp])
    rw [← List.append_cons] at hlow
    rw [Scan6.group, if_neg (by omega), htmp, store_append _ _ _ _ htp, hhigh, hval]
    simp only [Except.bind, hlow, Except.map]
    refine ⟨_, rfl, rfl, ?_, ?_, hc⟩
    · simp [toBE, toLE]
    · simp [htp]
  · next hfull =>
    rw [Scan6.group, if_pos (by omega)]

/-- One digit more. -/
theorem val_digit {d : ℕ} (h : value 16 ds ≤ 0xffff) (hd : d < 16) :
    (value 16 ds <<< 4) % 2 ^ 32 ||| d = value 16 (ds ++ [d]) := by
  have hshift : value 16 ds <<< 4 = value 16 ds * 16 := Nat.shiftLeft_eq _ _
  have hor := Nat.shiftLeft_add_eq_or_of_lt (show d < 2 ^ 4 by omega) (value 16 ds)
  rw [Nat.mod_eq_of_lt (by omega), ← hor, value_concat, hshift]

/-- **What `scan` comes to** from `src` on, in the token `g`: it reads what
the grammar says, and gives up where that is nothing or too much. -/
def Scans (tmp4 : List UInt8) (s : Scan6) (bs : List UInt8) (c : Option ℕ) (g src : List UInt8) :
    Prop :=
  (∃ bs' c' s', Reads c bs.length (g ++ src) bs' c' ∧ bs.length + bs'.length ≤ 16 ∧
      s.scan tmp4 (g ++ src) src = .ok s' ∧ s'.Final (bs ++ bs') c') ∨
    (∀ bs' c', Reads c bs.length (g ++ src) bs' c' → 16 < bs.length + bs'.length) ∧
      s.scan tmp4 (g ++ src) src = .error .invalid

section Characters

variable {tmp4 src : List UInt8}

/-- A colon behind a group. -/
theorem At.scans_colon (h : s.At bs ds c) (hds : ds ≠ []) (hg : Spells xdigit g ds)
    (hnext : ∀ s' : Scan6, s'.At (bs ++ toBE 2 (value 16 ds)) [] c →
      Scans tmp4 s' (bs ++ toBE 2 (value 16 ds)) c [] src) : Scans tmp4 s bs c g (58 :: src) := by
  have hgroup := h.group
  have hsaw : s.sawXdigit = true := by simp [h.sawXdigit, hds]
  have hlen : (bs ++ toBE 2 (value 16 ds)).length = bs.length + 2 := by simp
  have hinv : ∀ bs' c', Reads c bs.length (g ++ 58 :: src) bs' c' →
      ∃ bs'', bs' = toBE 2 (value 16 ds) ++ bs'' ∧ Reads c (bs.length + 2) src bs'' c' := by
    intro bs' c' hreads
    rcases hreads.inv hg (ends_colon src) with ⟨hrest, -⟩ | ⟨_, bs'', hrest, -, rfl, h'⟩ |
      ⟨_, -, hnil, -⟩ | ⟨_, hrest, -⟩
    · cases hrest
    · cases hrest
      exact ⟨bs'', rfl, h'⟩
    · exact absurd hnil hds
    · cases hrest
  by_cases hroom : bs.length + 2 ≤ 16
  · rw [if_pos hroom] at hgroup
    obtain ⟨s₁, hs₁, -, hfinal⟩ := hgroup
    have hat : ({ s₁ with sawXdigit := false, val := 0 } : Scan6).At
        (bs ++ toBE 2 (value 16 ds)) [] c :=
      ⟨hfinal.tmp, hfinal.tp, hfinal.colonp, rfl, rfl, Nat.zero_le _, by rw [hlen]; exact hroom⟩
    have hscan : s.scan tmp4 (g ++ 58 :: src) (58 :: src) =
        ({ s₁ with sawXdigit := false, val := 0 } : Scan6).scan tmp4 src src := by
      simp [Scan6.scan, Scan6.loop, xdigit_colon, hsaw, hs₁, Except.bind]
    rcases hnext _ hat with ⟨bs', c', s', hreads, hle, hs', hfinal'⟩ | ⟨hnone, hs'⟩
    · rw [hlen] at hreads hle
      refine .inl ⟨toBE 2 (value 16 ds) ++ bs', c', s', ?_, ?_, hscan.trans hs', ?_⟩
      · exact .group ⟨ds, hds, hg, rfl, h.value_le⟩ hreads
      · rw [List.length_append, length_toBE]
        omega
      · rwa [← List.append_assoc]
    · refine .inr ⟨fun bs' c' hreads => ?_, hscan.trans hs'⟩
      obtain ⟨bs'', rfl, h'⟩ := hinv bs' c' hreads
      rw [← hlen] at h'
      have hlong := hnone bs'' c' h'
      rw [List.length_append, length_toBE]
      omega
  · rw [if_neg hroom] at hgroup
    refine .inr ⟨fun bs' c' hreads => ?_, ?_⟩
    · obtain ⟨bs'', rfl, -⟩ := hinv bs' c' hreads
      rw [List.length_append, length_toBE]
      omega
    · simp [Scan6.scan, Scan6.loop, xdigit_colon, hsaw, hgroup, Except.bind]

/-- A colon behind another. -/
theorem At.scans_gap (h : s.At bs [] c)
    (hnext : ∀ s' : Scan6, s'.At bs [] (some bs.length) →
      Scans tmp4 s' bs (some bs.length) [] src) : Scans tmp4 s bs c [] (58 :: src) := by
  have hsaw : s.sawXdigit = false := h.sawXdigit
  have hcolon := h.colonp
  have hinv : ∀ bs' c', Reads c bs.length (58 :: src) bs' c' →
      c = none ∧ Reads (some bs.length) bs.length src bs' c' := by
    intro bs' c' hreads
    rcases Reads.inv (g := []) hreads .nil (ends_colon src) with ⟨hrest, -⟩ | ⟨_, _, -, hne, -⟩ |
      ⟨_, hrest, -, hnone, h'⟩ | ⟨_, hrest, -⟩
    · cases hrest
    · exact absurd rfl hne
    · cases hrest
      exact ⟨hnone, h'⟩
    · cases hrest
  rcases c with _ | k
  · have hat : ({ s with colonp := some s.tp } : Scan6).At bs [] (some bs.length) :=
      ⟨h.tmp, h.tp, congrArg some h.tp, h.sawXdigit, h.val, h.value_le, h.length_le⟩
    have hscan : s.scan tmp4 ([] ++ 58 :: src) (58 :: src) =
        ({ s with colonp := some s.tp } : Scan6).scan tmp4 src src := by
      simp [Scan6.scan, Scan6.loop, xdigit_colon, hsaw, hcolon]
    rcases hnext _ hat with ⟨bs', c', s', hreads, hle, hs', hfinal⟩ | ⟨hnone, hs'⟩
    · exact .inl ⟨bs', c', s', .gap hreads, hle, hscan.trans hs', hfinal⟩
    · exact .inr ⟨fun bs' c' hreads => hnone bs' c' (hinv bs' c' hreads).2, hscan.trans hs'⟩
  · refine .inr ⟨fun bs' c' hreads => ?_, ?_⟩
    · cases (hinv bs' c' hreads).1
    · simp [Scan6.scan, Scan6.loop, xdigit_colon, hsaw, hcolon, Except.bind]

/-- A dot, which is that of a dotted quad. -/
theorem At.scans_dot (htmp4 : tmp4.length = 4) (h : s.At bs ds c) (hg : Spells xdigit g ds)
    (hzero : (0 : UInt8) ∉ g ++ 46 :: src) : Scans tmp4 s bs c g (46 :: src) := by
  have hinv : ∀ bs' c', Reads c bs.length (g ++ 46 :: src) bs' c' →
      DottedQuad (g ++ 46 :: src) bs' := by
    intro bs' c' hreads
    rcases hreads.inv hg (ends_dot src) with ⟨hrest, -⟩ | ⟨_, _, hrest, -⟩ | ⟨_, hrest, -⟩ |
      ⟨_, -, hquad, -⟩
    · cases hrest
    · cases hrest
    · cases hrest
    · exact hquad
  have hscan : s.scan tmp4 (g ++ 46 :: src) (46 :: src) =
      (s.quad tmp4 (g ++ 46 :: src)).bind fun s => if s.sawXdigit then s.group else .ok s := by
    simp [Scan6.scan, Scan6.loop, xdigit_dot]
  by_cases hroom : bs.length + 4 ≤ 16
  · have hlen : s.tmp.length = 16 := by
      have hle := h.length_le
      rw [h.tmp, List.length_append, List.length_replicate]
      omega
    have hchars := chars_eq hzero
    have hdst : s.tp + 4 ≤ s.tmp.length := by
      rw [h.tp]
      omega
    rcases @inetPton4_spec _ (g ++ 46 :: src) _ _ htmp4 hdst with ⟨q, hquad, hpton⟩ | ⟨hnone, hpton⟩
    · rw [hchars] at hquad
      obtain ⟨gs, -, -, hfour⟩ := id hquad
      refine .inl ⟨q, c, { s with tmp := blit s.tmp s.tp q, tp := s.tp + 4, sawXdigit := false },
        .quad hquad, by omega, ?_, ?_, ?_, h.colonp⟩
      · rw [hscan, Scan6.quad, if_pos (by rw [h.tp]; exact hroom), hpton]
        rfl
      · have hfree : bs.length + 4 + (16 - (bs.length + 4)) = 16 := by omega
        have hdrop : 16 - bs.length - (bs.length + 4 - bs.length) = 16 - (bs.length + 4) := by omega
        show blit s.tmp s.tp q = bs ++ q ++ List.replicate (16 - (bs ++ q).length) 0
        rw [h.tmp, h.tp, blit, hfour, List.take_left, List.drop_append,
          List.drop_eq_nil_of_le (by omega),
          List.nil_append, List.drop_replicate, hdrop, List.length_append, hfour]
      · show s.tp + 4 = (bs ++ q).length
        rw [h.tp, List.length_append, hfour]
    · rw [hchars] at hnone
      refine .inr ⟨fun bs' c' hreads => absurd (hinv bs' c' hreads) (hnone bs'), ?_⟩
      rw [hscan, Scan6.quad, if_pos (by rw [h.tp]; exact hroom), hpton]
      rfl
  · refine .inr ⟨fun bs' c' hreads => ?_, ?_⟩
    · obtain ⟨gs, -, -, hfour⟩ := hinv bs' c' hreads
      omega
    · rw [hscan, Scan6.quad, if_neg (by rw [h.tp]; exact hroom)]
      rfl

end Characters

/-- **The loop reads what the grammar says**, from any character of a token
on, and no access leaves `tmp`. -/
theorem At.scan {tmp4 src : List UInt8} (htmp4 : tmp4.length = 4) (h : s.At bs ds c)
    (hg : Spells xdigit g ds) (hzero : (0 : UInt8) ∉ g ++ src) : Scans tmp4 s bs c g src := by
  induction src generalizing g ds bs c s with
  | nil =>
    have hgroup := h.group
    obtain ⟨htmp, htp, hc, hsaw, hval, hle, hlen⟩ := h
    by_cases hds : ds = []
    · have hsaw : s.sawXdigit = false := by simp [hsaw, hds]
      have hnil : g = [] := List.eq_nil_of_length_eq_zero (by rw [hg.length_eq, hds]; rfl)
      refine .inl ⟨[], c, s, ?_, by simpa using hlen, ?_, by simpa using htmp,
        by simpa using htp, hc⟩
      · rw [hnil]
        exact .done
      · simp [Scan6.scan, Scan6.loop, Except.bind, hsaw]
    · have hsaw : s.sawXdigit = true := by simp [hsaw, hds]
      have hscan : s.scan tmp4 (g ++ []) [] = s.group := by
        simp [Scan6.scan, Scan6.loop, Except.bind, hsaw]
      have hread : Reads c bs.length (g ++ []) (toBE 2 (value 16 ds)) c := by
        rw [List.append_nil]
        exact .last ⟨ds, hds, hg, rfl, hle⟩
      rw [Scans, hscan]
      split at hgroup
      · next hroom =>
        obtain ⟨s', hs', -, hfinal⟩ := hgroup
        exact .inl ⟨_, c, s', hread, by rw [length_toBE]; exact hroom, hs', hfinal⟩
      · next hfull =>
        refine .inr ⟨fun bs' c' hreads => ?_, hgroup⟩
        rcases hreads.inv hg ends_nil with ⟨-, -, ⟨hnil, -⟩ | ⟨-, rfl⟩⟩ | ⟨_, _, hrest, -⟩ |
          ⟨_, hrest, -⟩ | ⟨_, hrest, -⟩
        · exact absurd hnil hds
        · rw [length_toBE]
          omega
        all_goals cases hrest
  | cons ch src ih =>
    rcases hch : xdigit ch with _ | d
    · have hends : ∀ ch' ∈ (ch :: src).head?, xdigit ch' = none := by
        rintro ch' ⟨⟩
        exact hch
      by_cases hcolon : ch = 58
      · subst hcolon
        have hzero' : (0 : UInt8) ∉ [] ++ src := fun hmem =>
          hzero (List.mem_append_right _ (List.mem_cons_of_mem _ hmem))
        by_cases hds : ds = []
        · subst hds
          have hnil : g = [] := List.eq_nil_of_length_eq_zero hg.length_eq
          rw [hnil]
          exact h.scans_gap fun s' hat => ih hat .nil hzero'
        · exact h.scans_colon hds hg fun s' hat => ih hat .nil hzero'
      · by_cases hdot : ch = 46
        · subst hdot
          exact h.scans_dot htmp4 hg hzero
        · -- no other character stands in an address
          refine .inr ⟨fun bs' c' hreads => ?_, ?_⟩
          · rcases hreads.inv hg hends with ⟨hrest, -⟩ | ⟨_, _, hrest, -⟩ | ⟨_, hrest, -⟩ |
              ⟨_, hrest, -⟩
            · cases hrest
            · exact absurd (List.cons.inj hrest).1 hcolon
            · exact absurd (List.cons.inj hrest).1 hcolon
            · exact absurd (List.cons.inj hrest).1 hdot
          · simp [Scan6.scan, Scan6.loop, hch, hcolon, hdot, Except.bind]
    · -- a digit more, of the same token
      have hd := xdigit_lt hch
      have hval := val_digit h.value_le hd
      have htoken : g ++ ch :: src = (g ++ [ch]) ++ src := List.append_cons g ch src
      rw [Scans, htoken]
      rw [htoken] at hzero
      by_cases hbig : value 16 (ds ++ [d]) > 0xffff
      · refine .inr ⟨fun bs' c' hreads => ?_, ?_⟩
        · exact absurd (hreads.value_le (hg.concat hch)) (Nat.not_le.mpr hbig)
        · simp only [Scan6.scan, Scan6.loop, hch, h.val, hval, if_pos hbig]
          rfl
      · have hnext : ({ s with val := value 16 (ds ++ [d]), sawXdigit := true } : Scan6).At bs
            (ds ++ [d]) c := ⟨h.tmp, h.tp, h.colonp, by simp, rfl, Nat.not_lt.mp hbig, h.length_le⟩
        have hscan : s.scan tmp4 (g ++ [ch] ++ src) (ch :: src) =
            ({ s with val := value 16 (ds ++ [d]), sawXdigit := true } : Scan6).scan tmp4
              (g ++ [ch] ++ src) src := by
          simp only [Scan6.scan, Scan6.loop, hch, h.val, hval, if_neg hbig]
        rw [hscan]
        exact ih hnext (hg.concat hch) hzero

end Scan6

/-! ## The end -/

/-- One byte is moved behind the zeros that follow it. -/
theorem shiftByte_eq {A B : List UInt8} {x : UInt8} {pad n i : ℕ} (hpad : 0 < pad)
    (hA : p + (n - i) = A.length) (hend : 16 - i = A.length + pad) :
    shiftByte p n (A ++ x :: (List.replicate pad 0 ++ B)) i =
      .ok (A ++ (List.replicate pad 0 ++ x :: B)) := by
  obtain ⟨k, rfl⟩ : ∃ k, pad = k + 1 := ⟨pad - 1, by omega⟩
  have hsplit : A ++ x :: (List.replicate (k + 1) 0 ++ B) =
      (A ++ x :: List.replicate k 0) ++ 0 :: B := by
    rw [List.replicate_succ']
    simp
  have hmoved : (A ++ x :: List.replicate k 0) ++ x :: B =
      A ++ x :: (List.replicate k 0 ++ x :: B) := by simp
  have hlen : 16 - i = (A ++ x :: List.replicate k 0).length := by
    rw [hend, List.length_append, List.length_cons, List.length_replicate]
  rw [shiftByte, load_append _ _ _ hA, Except.bind, hsplit, store_append _ _ _ _ hlen, hmoved,
    Except.bind, store_append _ _ _ _ hA]
  rfl

/-- Where there are none it is written over itself, and then zeroed. -/
theorem shiftByte_full {A B : List UInt8} {x : UInt8} {n i : ℕ} (hA : p + (n - i) = A.length)
    (hend : 16 - i = A.length) : shiftByte p n (A ++ x :: B) i = .ok (A ++ 0 :: B) := by
  rw [shiftByte, load_append _ _ _ hA, Except.bind, store_append _ _ _ _ hend, Except.bind,
    store_append _ _ _ _ hA]

/-- **All bytes are moved**, from the last one on. -/
theorem shift_run (front back B : List UInt8) {pad n : ℕ} (hpad : 0 < pad)
    (hn : back.length + B.length = n) (hlen : front.length + n + pad = 16) :
    (List.range' (B.length + 1) back.length).foldlM (shiftByte front.length n)
        (front ++ (back ++ (List.replicate pad 0 ++ B))) =
      .ok (front ++ (List.replicate pad 0 ++ (back ++ B))) := by
  induction back using List.reverseRecOn generalizing B with
  | nil => rfl
  | append_singleton back x ih =>
    rw [List.length_append, List.length_singleton] at hn ⊢
    have hA : front.length + (n - (B.length + 1)) = (front ++ back).length := by
      rw [List.length_append]
      omega
    have hbyte := shiftByte_eq (x := x) (B := B) hpad hA (by rw [List.length_append]; omega)
    have hstart : front ++ (back ++ [x] ++ (List.replicate pad 0 ++ B)) =
        front ++ back ++ x :: (List.replicate pad 0 ++ B) := by simp
    have hnext := ih (x :: B) (by rw [List.length_cons]; omega)
    rw [List.length_cons] at hnext
    rw [List.range'_succ, List.foldlM_cons, hstart, hbyte]
    simp only [List.append_assoc, List.cons_append, List.nil_append] at hnext ⊢
    exact hnext

theorem shift_run_full (front back B : List UInt8) {n : ℕ} (hn : back.length + B.length = n)
    (hlen : front.length + n = 16) :
    (List.range' (B.length + 1) back.length).foldlM (shiftByte front.length n)
        (front ++ (back ++ B)) = .ok (front ++ (List.replicate back.length 0 ++ B)) := by
  induction back using List.reverseRecOn generalizing B with
  | nil => rfl
  | append_singleton back x ih =>
    rw [List.length_append, List.length_singleton] at hn ⊢
    have hA : front.length + (n - (B.length + 1)) = (front ++ back).length := by
      rw [List.length_append]
      omega
    have hbyte := shiftByte_full (x := x) (B := B) hA (by rw [List.length_append]; omega)
    have hstart : front ++ (back ++ [x] ++ B) = front ++ back ++ x :: B := by simp
    have hnext := ih (0 :: B) (by rw [List.length_cons]; omega)
    rw [List.length_cons] at hnext
    rw [List.range'_succ, List.foldlM_cons, hstart, hbyte, List.replicate_succ']
    simp only [List.append_assoc, List.cons_append, List.nil_append] at hnext ⊢
    exact hnext

/-- **What follows the `::` is spread.** -/
theorem shift_spread (hlen : bs.length ≤ 16) {k : ℕ} (hk : k ≤ bs.length) :
    shift (bs ++ List.replicate (16 - bs.length) 0) k (bs.length - k) = .ok (spread bs k) := by
  have hfront : (bs.take k).length = k := List.length_take_of_le hk
  have hback : (bs.drop k).length = bs.length - k := List.length_drop
  unfold shift spread
  split
  · next hlt =>
    have hpad : 0 < 16 - bs.length := by omega
    have hrun := shift_run (bs.take k) (bs.drop k) [] (n := bs.length - k) hpad (by simp) (by omega)
    rw [hfront, hback, List.append_nil, List.append_nil, ← List.append_assoc,
      List.take_append_drop] at hrun
    rw [List.append_assoc]
    exact hrun
  · next hfull =>
    have hsixteen : bs.length = 16 := by omega
    have hrun := shift_run_full (bs.take k) (bs.drop k) [] (n := bs.length - k) (by simp) (by omega)
    rw [hfront, hback, List.append_nil, List.append_nil, List.take_append_drop] at hrun
    rw [hsixteen, Nat.sub_self, List.replicate_zero, List.append_nil, ← hsixteen]
    exact hrun

/-- A text is an address for one list of bytes. -/
theorem Address6.unique {a a' : List UInt8} (h : Address6 text a) (h' : Address6 text a') :
    a = a' := by
  cases h with
  | plain ht h _ =>
    cases h' with
    | plain ht' h' _ =>
      obtain rfl := Option.some.inj (ht.symm.trans ht')
      exact (h'.unique h).1
    | gap ht' h' _ =>
      obtain rfl := Option.some.inj (ht.symm.trans ht')
      cases (h.unique h').2
  | gap ht h _ =>
    cases h' with
    | plain ht' h' _ =>
      obtain rfl := Option.some.inj (ht.symm.trans ht')
      cases (h'.unique h).2
    | gap ht' h' _ =>
      obtain rfl := Option.some.inj (ht.symm.trans ht')
      obtain ⟨rfl, hc⟩ := h.unique h'
      cases hc
      rfl

theorem start6_suffix {t : List UInt8} (h : start6 text = some t) : t <:+ text := by
  unfold start6 at h
  split at h
  · split at h
    · cases h
      exact List.tail_suffix text
    · cases h
  · cases h
    exact List.suffix_rfl

theorem zero_notMem_chars (src : List UInt8) : (0 : UInt8) ∉ chars src := by
  intro hmem
  have hall : ((chars src).all fun ch => decide (ch ≠ 0)) = true := List.all_takeWhile
  exact of_decide_eq_true (List.all_eq_true.mp hall 0 hmem) rfl

/-- **The address that is read.** -/
theorem address6_spec {tmp4 src : List UInt8} (htmp4 : tmp4.length = 4) :
    (∃ a, Address6 (chars src) a ∧ a.length = 16 ∧ address6 tmp4 src = .ok a) ∨
      (∀ a, ¬ Address6 (chars src) a) ∧ address6 tmp4 src = .error .invalid := by
  unfold address6
  rcases ht : start6 (chars src) with _ | t
  · refine .inr ⟨fun a ha => ?_, rfl⟩
    cases ha with
    | plain ht' => cases ht.symm.trans ht'
    | gap ht' => cases ht.symm.trans ht'
  · have hzero : (0 : UInt8) ∉ [] ++ t := fun hmem =>
      zero_notMem_chars src ((start6_suffix ht).subset hmem)
    have hstart : (⟨List.replicate 16 0, 0, none, false, 0⟩ : Scan6).At [] [] none :=
      ⟨rfl, rfl, rfl, rfl, rfl, Nat.zero_le _, Nat.zero_le _⟩
    rcases hstart.scan htmp4 .nil hzero with ⟨bs, c, s, hreads, hle, hscan, hfinal⟩ | ⟨hnone, hscan⟩
    · rw [List.nil_append] at hreads hscan hfinal
      rw [List.length_nil, Nat.zero_add] at hle
      simp only [hscan, Except.bind, hfinal.colonp]
      rcases c with _ | k
      · simp only
        by_cases hfull : bs.length = 16
        · refine .inl ⟨bs, .plain ht hreads hfull, hfull, ?_⟩
          rw [if_pos (by rw [hfinal.tp, hfull]), hfinal.tmp, hfull]
          simp
        · refine .inr ⟨fun a ha => ?_, if_neg (by rw [hfinal.tp]; exact hfull)⟩
          cases ha with
          | plain ht' h' hlen =>
            obtain rfl := Option.some.inj (ht.symm.trans ht')
            obtain ⟨rfl, -⟩ := hreads.unique h'
            exact hfull hlen
          | gap ht' h' =>
            obtain rfl := Option.some.inj (ht.symm.trans ht')
            cases (hreads.unique h').2
      · have hk : k ≤ bs.length := by
          rcases hreads.gap_le rfl with hc | ⟨-, hk⟩
          · cases hc
          · simpa using hk
        refine .inl ⟨spread bs k, .gap ht hreads hle, length_spread hle hk, ?_⟩
        simp only [hfinal.tmp, hfinal.tp]
        exact shift_spread hle hk
    · rw [List.nil_append] at hnone hscan
      refine .inr ⟨fun a ha => ?_, by simp only [hscan, Except.bind]⟩
      cases ha with
      | plain ht' h' hlen =>
        obtain rfl := Option.some.inj (ht.symm.trans ht')
        have hlong := hnone _ _ h'
        rw [List.length_nil, Nat.zero_add] at hlong
        omega
      | gap ht' h' hlen =>
        obtain rfl := Option.some.inj (ht.symm.trans ht')
        have hlong := hnone _ _ h'
        rw [List.length_nil, Nat.zero_add] at hlong
        omega

/-- **`inet_pton6` accepts the addresses of its grammar and nothing else.**
Whatever the string is and whatever was on the stack, no access leaves a
buffer, an address is written to `dst` and 1 returned, and for any other
string 0 is returned with `dst` left as it was. -/
theorem inetPton6_spec {tmp4 src dst : List UInt8} (htmp4 : tmp4.length = 4)
    (hdst : 16 ≤ dst.length) :
    (∃ a, Address6 (chars src) a ∧ inetPton6 tmp4 src dst = some (1, blit dst 0 a)) ∨
      (∀ a, ¬ Address6 (chars src) a) ∧ inetPton6 tmp4 src dst = some (0, dst) := by
  rcases @address6_spec _ src htmp4 with ⟨a, ha, hlen, hok⟩ | ⟨hnone, herr⟩
  · refine .inl ⟨a, ha, ?_⟩
    simp only [inetPton6, hok]
    rw [memcpy_eq (by omega) (by omega), List.drop_zero, List.take_of_length_le (by omega)]
    rfl
  · exact .inr ⟨hnone, by simp only [inetPton6, herr]⟩

/-- An address is written. -/
theorem inetPton6_of_address {tmp4 src dst a : List UInt8} (htmp4 : tmp4.length = 4)
    (hdst : 16 ≤ dst.length) (ha : Address6 (chars src) a) :
    inetPton6 tmp4 src dst = some (1, blit dst 0 a) := by
  rcases inetPton6_spec htmp4 hdst with ⟨a', ha', heq⟩ | ⟨hnone, -⟩
  · rw [heq, ha.unique ha']
  · exact absurd ha (hnone a)

/-- **A `::` in a full address is not ignored**: all that follows it is
zeroed. -/
theorem inetPton6_full {tmp4 src dst t : List UInt8} {k : ℕ} (htmp4 : tmp4.length = 4)
    (hdst : 16 ≤ dst.length) (ht : start6 (chars src) = some t) (h : Reads none 0 t bs (some k))
    (hfull : bs.length = 16) :
    inetPton6 tmp4 src dst = some (1, blit dst 0 (bs.take k ++ List.replicate (16 - k) 0)) := by
  have hspread : spread bs k = bs.take k ++ List.replicate (16 - k) 0 :=
    if_neg (Nat.not_lt.mpr hfull.ge)
  rw [← hspread]
  exact inetPton6_of_address htmp4 hdst (.gap ht h hfull.le)

/-- A single digit is a group. -/
theorem group_digit {d : ℕ} (hch : xdigit ch = some d) : Group [ch] d :=
  ⟨[d], by simp, Spells.cons_iff.mpr ⟨d, [], rfl, hch, .nil⟩, by simp [value],
    (xdigit_lt hch).le.trans (by decide)⟩

/-- `"1:2:3:4::5:6:7:8"` is read as `"1:2:3:4::"`. -/
theorem inetPton6_full_eight :
    inetPton6 [7, 7, 7, 7] [49, 58, 50, 58, 51, 58, 52, 58, 58, 53, 58, 54, 58, 55, 58, 56, 0]
        (List.replicate 16 9) =
      some (1, [0, 1, 0, 2, 0, 3, 0, 4, 0, 0, 0, 0, 0, 0, 0, 0]) :=
  inetPton6_full (t := [49, 58, 50, 58, 51, 58, 52, 58, 58, 53, 58, 54, 58, 55, 58, 56])
    (k := 8) rfl (by decide) rfl
    (.group (g := [49]) (group_digit (d := 1) rfl) <|
    .group (g := [50]) (group_digit (d := 2) rfl) <|
      .group (g := [51]) (group_digit (d := 3) rfl) <|
      .group (g := [52]) (group_digit (d := 4) rfl) <|
      .gap <| .group (g := [53]) (group_digit (d := 5) rfl) <|
      .group (g := [54]) (group_digit (d := 6) rfl) <|
      .group (g := [55]) (group_digit (d := 7) rfl) <|
      .last (g := [56]) (group_digit (d := 8) rfl)) rfl

end Inet

end EupuServer
