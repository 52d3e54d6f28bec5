import EupuServer.Inet.Pton6
/-!
# Printing IPv6 addresses

`inet_ntop6` prints the eight words of an address in hexadecimal, with a
`::` for the longest run of at least two zeros, and the last two words as a
dotted quad where the address carries an IPv4 one. What is printed fits the
buffer it is put together in (`inetNtop6_eq`), the run is the longest one
and the first of these (`bestRun_longest`), and `inet_pton6` reads the
address back (`inetPton6_inetNtop6`).
-/

namespace EupuServer

namespace Inet

open Bytes Numerals

/-! ## The words -/

/-- `words`, of the bytes at `src`. -/
def words6 (src : List UInt8) : List ℕ :=
  (List.range 16).foldl
    (fun words i => words.modify (i / 2) (· ||| (src.getD i 0).toNat <<< ((1 - i % 2) <<< 3)))
    (List.replicate 8 0)

/-- A run of zeros, as `best` and `cur` hold it. -/
structure ZeroRun where
  base : ℕ
  len : ℕ
  deriving DecidableEq, Repr

/-- The `best` run, where `cur` has come to its end. -/
def ZeroRun.better (best : Option ZeroRun) (cur : ZeroRun) : Option ZeroRun :=
  match best with
  | none => some cur
  | some b => if cur.len > b.len then some cur else some b

/-- The search for the longest run of zeros, from the word `i` on. -/
def scanRuns (i : ℕ) (best cur : Option ZeroRun) : List ℕ → Option ZeroRun
  | [] =>
    match cur with
    | none => best
    | some c => ZeroRun.better best c
  | w :: ws =>
    if w = 0 then
      match cur with
      | none => scanRuns (i + 1) best (some ⟨i, 1⟩) ws
      | some c => scanRuns (i + 1) best (some { c with len := c.len + 1 }) ws
    else
      match cur with
      | none => scanRuns (i + 1) best none ws
      | some c => scanRuns (i + 1) (ZeroRun.better best c) none ws

/-- `best`, which is dropped where it is a single word. -/
def bestRun (words : List ℕ) : Option ZeroRun :=
  match scanRuns 0 none none words with
  | some r => if r.len < 2 then none else some r
  | none => none

/-! ## The text -/

/-- `%x`. -/
def hex (n : ℕ) : List UInt8 := (numeral 16 n).map fun d => xdigitsL.getD d 0

/-- `tmp`, with `tp` as an offset into it. -/
structure Out where
  tmp : List UInt8
  tp : ℕ
  deriving DecidableEq, Repr

namespace Out

/-- `*tp++ = c`. -/
def put (o : Out) (c : UInt8) : Except Stop Out :=
  (store o.tmp o.tp c).map fun tmp => ⟨tmp, o.tp + 1⟩

/-- `*tp++ = ':'` under a condition. -/
def colonIf (o : Out) (b : Bool) : Except Stop Out := if b then o.put 58 else .ok o

/-- `tp += sprintf_s(tp, size, ..)` of `text`. -/
def printf (o : Out) (size : ℕ) (text : List UInt8) : Except Stop Out :=
  match sprintfS o.tmp o.tp size text with
  | none => .error .fault
  | some tmp => .ok ⟨tmp, o.tp + text.length⟩

/-- The call of `inet_ntop4` on the last four bytes. -/
def quad (tmp4 src : List UInt8) (o : Out) : Except Stop Out :=
  match inetNtop4 tmp4 src 12 o.tmp o.tp (46 - o.tp) with
  | none => .error .fault
  | some (ret, tmp) =>
    if ret then .ok ⟨tmp, o.tp + strlen (tmp.drop o.tp)⟩ else .error .invalid

end Out

/-- The word `i` is inside the best run. -/
def inside (best : Option ZeroRun) (i : ℕ) : Bool :=
  match best with
  | none => false
  | some r => decide (i ≥ r.base ∧ i < r.base + r.len)

/-- The word `i` is the first one of the best run. -/
def isBase (best : Option ZeroRun) (i : ℕ) : Bool :=
  match best with
  | none => false
  | some r => decide (i = r.base)

/-- The address is an IPv4 one, which begins at the word `i`. -/
def isQuad (words : List ℕ) (best : Option ZeroRun) (i : ℕ) : Bool :=
  match best with
  | none => false
  | some r => decide (i = 6 ∧ r.base = 0 ∧ (r.len = 6 ∨ r.len = 5 ∧ words[5]? = some 0xffff))

/-- The best run ends the address. -/
def isTrailing (best : Option ZeroRun) : Bool :=
  match best with
  | none => false
  | some r => decide (r.base + r.len = 8)

/-- The loop over the words, from the word `i` on. -/
def format6 (tmp4 src : List UInt8) (words : List ℕ) (best : Option ZeroRun) (i : ℕ) (o : Out) :
    List ℕ → Except Stop Out
  | [] => .ok o
  | w :: ws =>
    if inside best i then
      (o.colonIf (isBase best i)).bind fun o => format6 tmp4 src words best (i + 1) o ws
    else
      (o.colonIf (decide (i ≠ 0))).bind fun o =>
        if isQuad words best i then o.quad tmp4 src
        else (o.printf 5 (hex w)).bind fun o => format6 tmp4 src words best (i + 1) o ws

/-- All that is put into `tmp`. -/
def print6 (tmp tmp4 src : List UInt8) : Except Stop Out :=
  let words := words6 src
  let best := bestRun words
  (format6 tmp4 src words best 0 ⟨tmp, 0⟩ words).bind fun o =>
    (o.colonIf (isTrailing best)).bind fun o => o.put 0

/-- `inet_ntop6`, with what is on the stack in `tmp` and in `inet_ntop4`, and
whether it returns `dst`; `none` where an access leaves a buffer. -/
def inetNtop6 (tmp tmp4 src dst : List UInt8) (size : ℕ) : Option (Bool × List UInt8) :=
  (readAt src 0 16).bind fun src =>
    match print6 tmp tmp4 src with
    | .error .fault => none
    | .error .invalid => some (false, dst)
    | .ok o =>
      if o.tp > size then some (false, dst)
      else (memcpy dst 0 o.tmp 0 o.tp).map fun dst' => (true, dst')

/-! ## The longest run of zeros -/

variable {words ws : List ℕ} {best cur : Option ZeroRun} {r : ZeroRun} {i : ℕ}

/-- The words of the run are zeros. -/
def ZeroRun.Zeros (words : List ℕ) (r : ZeroRun) : Prop :=
  0 < r.len ∧ ∀ j, r.base ≤ j → j < r.base + r.len → words[j]? = some 0

/-- The run `r` is longer than `q`, or as long and not behind it. -/
def ZeroRun.Beats (r q : ZeroRun) : Prop := q.len < r.len ∨ q.len = r.len ∧ r.base ≤ q.base

/-- **What the search knows** before the word `i`: `cur` is the run that ends
there, with no zero in front of it, and each run that has come to its end is
beaten by `best` or by `cur`. -/
structure Searched (words : List ℕ) (i : ℕ) (best cur : Option ZeroRun) : Prop where
  bestRun : ∀ r ∈ best, r.Zeros words ∧ r.base + r.len ≤ i
  curRun : ∀ c ∈ cur, c.Zeros words ∧ c.base + c.len = i ∧ ∀ j, j + 1 = c.base → words[j]? ≠ some 0
  noRun : cur = none → ∀ j, j + 1 = i → words[j]? ≠ some 0
  ordered : ∀ r ∈ best, ∀ c ∈ cur, r.base ≤ c.base
  beaten : ∀ q : ZeroRun, q.Zeros words → q.base + q.len ≤ i →
    (∃ r ∈ best, r.Beats q) ∨ ∃ c ∈ cur, c.Beats q

/-- A run that beats another does so where it gets longer. -/
theorem ZeroRun.Beats.longer {q : ZeroRun} {n : ℕ} (h : r.Beats q) (hn : r.len ≤ n) :
    ({ r with len := n } : ZeroRun).Beats q := by
  rcases h with hlt | ⟨heq, hbase⟩
  · exact .inl (hlt.trans_le hn)
  · rcases hn.lt_or_eq with hlt | rfl
    · exact .inl (heq.trans_lt hlt)
    · exact .inr ⟨heq, hbase⟩

/-- **The better run beats what either does.** -/
theorem ZeroRun.better_beats {c q : ZeroRun} (hordered : ∀ r ∈ best, r.base ≤ c.base)
    (h : (∃ r ∈ best, r.Beats q) ∨ c.Beats q) : ∃ r ∈ ZeroRun.better best c, r.Beats q := by
  unfold ZeroRun.better
  rcases best with _ | b
  · rcases h with ⟨r, hr, -⟩ | hc
    · cases hr
    · exact ⟨c, rfl, hc⟩
  · have hbase : b.base ≤ c.base := hordered b rfl
    simp only
    split
    · next hlt =>
      refine ⟨c, rfl, ?_⟩
      rcases h with ⟨r, hr, hbeats⟩ | hc
      · cases hr
        unfold ZeroRun.Beats at hbeats ⊢
        omega
      · exact hc
    · next hle =>
      refine ⟨b, rfl, ?_⟩
      rcases h with ⟨r, hr, hbeats⟩ | hc
      · cases hr
        exact hbeats
      · unfold ZeroRun.Beats at hc ⊢
        omega

/-- A zero more, behind a run. -/
theorem Searched.extend {c : ZeroRun} (h : Searched words i best (some c))
    (hw : words[i]? = some 0) : Searched words (i + 1) best (some { c with len := c.len + 1 }) := by
  obtain ⟨hbest, hcur, -, hordered, hbeaten⟩ := h
  obtain ⟨⟨hpos, hzeros⟩, hend, hfront⟩ := hcur c rfl
  refine ⟨fun r hr => ?_, ?_, nofun, ?_, fun q hq hle => ?_⟩
  · obtain ⟨hr0, hle⟩ := hbest r hr
    exact ⟨hr0, by omega⟩
  · rintro c' ⟨⟩
    refine ⟨⟨Nat.succ_pos _, fun j hj hj' => ?_⟩, by simp only; omega, hfront⟩
    simp only at hj hj'
    rcases Nat.lt_or_ge j i with hlt | hge
    · exact hzeros j hj (by omega)
    · rw [show j = i by omega]
      exact hw
  · rintro r hr c' ⟨⟩
    exact hordered r hr c rfl
  · rcases Nat.lt_or_ge (q.base + q.len) (i + 1) with hlt | hge
    · rcases hbeaten q hq (by omega) with hr | ⟨c', hc', hbeats⟩
      · exact .inl hr
      · cases hc'
        exact .inr ⟨_, rfl, hbeats.longer (Nat.le_succ _)⟩
    · -- a run that ends here does not begin before `cur`, where there is no zero
      have hbase : c.base ≤ q.base := by
        by_contra hlt
        exact hfront (c.base - 1) (by omega) (hq.2 _ (by omega) (by omega))
      refine .inr ⟨_, rfl, ?_⟩
      unfold ZeroRun.Beats
      simp only
      omega

/-- The first zero of a run. -/
theorem Searched.begin (h : Searched words i best none) (hw : words[i]? = some 0) :
    Searched words (i + 1) best (some ⟨i, 1⟩) := by
  obtain ⟨hbest, -, hnone, -, hbeaten⟩ := h
  refine ⟨fun r hr => ?_, ?_, nofun, ?_, fun q hq hle => ?_⟩
  · obtain ⟨hr0, hle⟩ := hbest r hr
    exact ⟨hr0, by omega⟩
  · rintro c' ⟨⟩
    refine ⟨⟨Nat.one_pos, fun j hj hj' => ?_⟩, rfl, hnone rfl⟩
    simp only at hj hj'
    rw [show j = i by omega]
    exact hw
  · rintro r hr c' ⟨⟩
    have := (hbest r hr).2
    simp only
    omega
  · rcases Nat.lt_or_ge (q.base + q.len) (i + 1) with hlt | hge
    · rcases hbeaten q hq (by omega) with hr | ⟨c', hc', -⟩
      · exact .inl hr
      · cases hc'
    · have hpos := hq.1
      have hbase : i ≤ q.base := by
        by_contra hlt
        exact hnone rfl (i - 1) (by omega) (hq.2 _ (by omega) (by omega))
      refine .inr ⟨_, rfl, ?_⟩
      unfold ZeroRun.Beats
      simp only
      omega

/-- What `best` becomes where `cur` has come to its end. -/
def closed (best cur : Option ZeroRun) : Option ZeroRun :=
  match cur with
  | none => best
  | some c => ZeroRun.better best c

theorem Searched.mem_closed (h : Searched words i best cur) (hr : r ∈ closed best cur) :
    r.Zeros words ∧ r.base + r.len ≤ i := by
  unfold closed at hr
  rcases cur with _ | c
  · exact h.bestRun r hr
  · obtain ⟨hc0, hend, -⟩ := h.curRun c rfl
    unfold ZeroRun.better at hr
    rcases best with _ | b
    · cases hr
      exact ⟨hc0, hend.le⟩
    · simp only at hr
      split at hr
      · cases hr
        exact ⟨hc0, hend.le⟩
      · exact h.bestRun r hr

theorem Searched.closed_beats (h : Searched words i best cur) {q : ZeroRun} (hq : q.Zeros words)
    (hle : q.base + q.len ≤ i) : ∃ r ∈ closed best cur, r.Beats q := by
  unfold closed
  rcases cur with _ | c
  · rcases h.beaten q hq hle with hr | ⟨c, hc, -⟩
    · exact hr
    · cases hc
  · refine ZeroRun.better_beats (fun r hr => h.ordered r hr c rfl) ?_
    rcases h.beaten q hq hle with hr | ⟨c', hc', hbeats⟩
    · exact .inl hr
    · cases hc'
      exact .inr hbeats

/-- A word that is no zero ends a run. -/
theorem Searched.close (h : Searched words i best cur) (hw : words[i]? ≠ some 0) :
    Searched words (i + 1) (closed best cur) none := by
  refine ⟨fun r hr => ?_, nofun, fun _ j hj => ?_, nofun, fun q hq hle => ?_⟩
  · obtain ⟨hr0, hle⟩ := h.mem_closed hr
    exact ⟨hr0, by omega⟩
  · rw [show j = i by omega]
    exact hw
  · have hpos := hq.1
    have hlt : q.base + q.len ≤ i := by
      by_contra hgt
      exact hw (hq.2 i (by omega) (by omega))
    exact .inl (h.closed_beats hq hlt)

/-- **The search to its end.** -/
theorem Searched.scan (h : Searched words i best cur) (hdrop : words.drop i = ws) :
    ∃ best' cur', Searched words (i + ws.length) best' cur' ∧
      scanRuns i best cur ws = closed best' cur' := by
  induction ws generalizing i best cur with
  | nil => exact ⟨best, cur, h, rfl⟩
  | cons w ws ih =>
    have hw : words[i]? = some w := by
      rw [← List.head?_drop, hdrop]
      rfl
    have hnext : words.drop (i + 1) = ws := by
      rw [← List.tail_drop, hdrop]
      rfl
    rw [List.length_cons, Nat.add_comm ws.length, ← Nat.add_assoc]
    unfold scanRuns
    split
    · next hzero =>
      subst hzero
      rcases cur with _ | c
      · exact ih (h.begin hw) hnext
      · exact ih (h.extend hw) hnext
    · next hne =>
      have hstep := ih (h.close (by rw [hw]; simpa using hne)) hnext
      rcases cur with _ | c
      · exact hstep
      · exact hstep

/-- **`inet_ntop6` abbreviates the longest run of zeros**, the first one of
those, and none that is a single word. -/
theorem bestRun_longest (words : List ℕ) :
    match bestRun words with
    | some r => 2 ≤ r.len ∧ r.Zeros words ∧ ∀ q : ZeroRun, q.Zeros words → r.Beats q
    | none => ∀ q : ZeroRun, q.Zeros words → q.len < 2 := by
  have hstart : Searched words 0 none none := by
    refine ⟨nofun, nofun, fun _ j hj => by omega, nofun, fun q hq hle => ?_⟩
    have hpos := hq.1
    omega
  obtain ⟨best, cur, hend, hscan⟩ := hstart.scan (show words.drop 0 = words from List.drop_zero)
  have hwhole : ∀ q : ZeroRun, q.Zeros words → ∃ r ∈ closed best cur, r.Beats q := by
    intro q hq
    refine hend.closed_beats hq ?_
    -- the last word of the run is there
    obtain ⟨hpos, hzeros⟩ := hq
    have hlast := hzeros (q.base + q.len - 1) (by omega) (by omega)
    obtain ⟨hlt, -⟩ := List.getElem?_eq_some_iff.mp hlast
    omega
  unfold bestRun
  rw [hscan]
  rcases hr : closed best cur with _ | r
  · intro q hq
    obtain ⟨r, hmem, -⟩ := hwhole q hq
    rw [hr] at hmem
    cases hmem
  · have hall : ∀ q : ZeroRun, q.Zeros words → r.Beats q := by
      intro q hq
      obtain ⟨r', hmem, hbeats⟩ := hwhole q hq
      rw [hr] at hmem
      cases hmem
      exact hbeats
    by_cases hone : r.len < 2
    · simp only [if_pos hone]
      intro q hq
      have hbeats := hall q hq
      unfold ZeroRun.Beats at hbeats
      omega
    · simp only [if_neg hone]
      exact ⟨by omega, (hend.mem_closed hr).1, hall⟩

/-! ## What is put into the buffer -/

variable {t text tmp4 src : List UInt8} {o : Out}

/-- The text `t` has been put into `tmp`. -/
structure Out.Prints (t : List UInt8) (o : Out) : Prop where
  tp : o.tp = t.length
  tmp : ∃ rest, o.tmp = t ++ rest ∧ t.length + rest.length = 46

namespace Out.Prints

theorem put (h : o.Prints t) (c : UInt8) (hroom : t.length < 46) :
    ∃ o', o.put c = .ok o' ∧ o'.Prints (t ++ [c]) := by
  obtain ⟨htp, rest, htmp, hlen⟩ := h
  obtain ⟨x, rest, rfl⟩ : ∃ x rest', rest = x :: rest' := by
    cases rest with
    | nil => simp at hlen; omega
    | cons x rest => exact ⟨x, rest, rfl⟩
  refine ⟨⟨t ++ c :: rest, o.tp + 1⟩, ?_, by simp [htp], rest, by simp, ?_⟩
  · rw [Out.put, htmp, store_append _ _ _ _ htp]
    rfl
  · rw [List.length_cons] at hlen
    rw [List.length_append, List.length_singleton]
    omega

theorem colonIf (h : o.Prints t) (b : Bool) (hroom : t.length < 46) :
    ∃ o', o.colonIf b = .ok o' ∧ o'.Prints (t ++ if b then [58] else []) := by
  cases b with
  | false => exact ⟨o, rfl, by simpa using h⟩
  | true => exact h.put 58 hroom

/-- What is printed behind `t` stands there with its NUL. -/
theorem blit_eq (h : o.Prints t) (text : List UInt8) (hroom : t.length + text.length < 46) :
    ∃ rest, blit o.tmp o.tp (text ++ [0]) = t ++ text ++ 0 :: rest ∧
      t.length + text.length + 1 + rest.length = 46 := by
  obtain ⟨htp, rest, htmp, hlen⟩ := h
  refine ⟨rest.drop (text.length + 1), ?_, ?_⟩
  · rw [htp, htmp, blit, List.take_left, List.drop_append, List.drop_eq_nil_of_le (by omega)]
    simp
  · rw [List.length_drop]
    omega

theorem printf (h : o.Prints t) {size : ℕ} (hsize : text.length < size)
    (hroom : t.length + text.length < 46) :
    ∃ o', o.printf size text = .ok o' ∧ o'.Prints (t ++ text) := by
  obtain ⟨rest, hblit, hlen⟩ := h.blit_eq text hroom
  obtain ⟨htp, rest', htmp, hlen'⟩ := h
  have hcopy : memcpy o.tmp o.tp (text ++ [0]) 0 (text.length + 1) =
      some (blit o.tmp o.tp (text ++ [0])) := by
    rw [memcpy_eq (by rw [htp, htmp, List.length_append]; omega) (by simp), List.drop_zero,
      List.take_of_length_le (by simp)]
  refine ⟨⟨blit o.tmp o.tp (text ++ [0]), o.tp + text.length⟩, ?_, by simp [htp], 0 :: rest,
    hblit, ?_⟩
  · rw [Out.printf, sprintfS, if_pos hsize, hcopy]
  · rw [List.length_append, List.length_cons]
    omega

theorem quad (h : o.Prints t) (htmp4 : tmp4.length = 16) (hsrc : src.length = 16)
    (hroom : t.length + 16 ≤ 46) : ∃ o', o.quad tmp4 src = .ok o' ∧
      o'.Prints (t ++ dotted (src.drop 12)) := by
  have hquad : (src.drop 12).length = 4 := by
    rw [List.length_drop, hsrc]
  have htake : (src.drop 12).take 4 = src.drop 12 := List.take_of_length_le hquad.le
  have hshort := length_dotted_le hquad
  obtain ⟨rest, hblit, hlen⟩ := h.blit_eq (dotted (src.drop 12)) (by omega)
  obtain ⟨htp, rest', htmp, hlen'⟩ := h
  have hfull : o.tmp.length = 46 := by rw [htmp, List.length_append, hlen']
  have hntop := inetNtop4_eq htmp4
    (show 12 + 4 ≤ src.length by omega) (show o.tp + (46 - o.tp) ≤ o.tmp.length by omega)
  rw [htake, if_pos (by omega)] at hntop
  have hstrlen : strlen ((blit o.tmp o.tp (dotted (src.drop 12) ++ [0])).drop o.tp) =
      (dotted (src.drop 12)).length := by
    rw [hblit, htp, List.append_assoc, List.drop_left,
      strlen_append_nul (zero_notMem_dotted hquad)]
  refine ⟨⟨blit o.tmp o.tp (dotted (src.drop 12) ++ [0]), o.tp + (dotted (src.drop 12)).length⟩, ?_,
    by simp [htp], 0 :: rest, hblit, ?_⟩
  · rw [Out.quad, hntop]
    simp only [if_true, hstrlen]
  · rw [List.length_append, List.length_cons]
    omega

end Out.Prints

/-! ## The text -/

/-- Words with a colon between each two. -/
def join (ws : List ℕ) : List UInt8 := [58].intercalate (ws.map hex)

/-- The words from the word `i` on, with a colon before each but the first. -/
def wordsText : ℕ → List ℕ → List UInt8
  | _, [] => []
  | i, w :: ws => (if i = 0 then [] else [58]) ++ hex w ++ wordsText (i + 1) ws

theorem join_cons_cons (w w' : ℕ) (ws : List ℕ) :
    join (w :: w' :: ws) = hex w ++ 58 :: join (w' :: ws) := by
  rw [join, List.map_cons, List.map_cons, List.intercalate_cons_cons, List.append_assoc]
  rfl

theorem join_singleton (w : ℕ) : join [w] = hex w := List.intercalate_singleton

theorem wordsText_succ (i : ℕ) (ws : List ℕ) (hne : ws ≠ []) :
    wordsText (i + 1) ws = 58 :: join ws := by
  induction ws generalizing i with
  | nil => exact absurd rfl hne
  | cons w ws ih =>
    cases ws with
    | nil => simp [wordsText, join_singleton]
    | cons w' ws =>
      rw [wordsText, ih (i + 1) (by simp), join_cons_cons]
      simp

theorem wordsText_zero (ws : List ℕ) : wordsText 0 ws = join ws := by
  cases ws with
  | nil => rfl
  | cons w ws =>
    cases ws with
    | nil => simp [wordsText, join_singleton]
    | cons w' ws =>
      rw [wordsText, wordsText_succ 0 _ (by simp), join_cons_cons]
      simp

theorem length_hex_le {w : ℕ} (hw : w < 2 ^ 16) : (hex w).length ≤ 4 := by
  rw [hex, List.length_map]
  exact length_numeral_le (by decide) (by decide) (by omega)

variable {rest : List ℕ}

/-- **Words that are printed.** -/
theorem format6_words (tmp4 src : List UInt8) (rest : List ℕ)
    (hout : ∀ j, i ≤ j → j < i + ws.length →
      inside best j = false ∧ isQuad words best j = false)
    (hprints : o.Prints t) (hlen : t.length ≤ 5 * i) (hi : i + ws.length ≤ 8)
    (hws : ∀ w ∈ ws, w < 2 ^ 16) :
    ∃ o', format6 tmp4 src words best i o (ws ++ rest) =
        format6 tmp4 src words best (i + ws.length) o' rest ∧
      o'.Prints (t ++ wordsText i ws) ∧ (t ++ wordsText i ws).length ≤ 5 * (i + ws.length) := by
  induction ws generalizing i o t with
  | nil => exact ⟨o, rfl, by simpa [wordsText] using hprints, by simpa [wordsText] using hlen⟩
  | cons w ws ih =>
    rw [List.length_cons] at hout hi ⊢
    obtain ⟨hinside, hquad⟩ := hout i le_rfl (by omega)
    have hfour := length_hex_le (hws w (by simp))
    obtain ⟨o₁, hcolon, hprints₁⟩ := hprints.colonIf (decide (i ≠ 0)) (by omega)
    have hone : (t ++ if decide (i ≠ 0) then [58] else []).length ≤ t.length + 1 := by
      rw [List.length_append]
      split <;> simp
    obtain ⟨o₂, hprintf, hprints₂⟩ := hprints₁.printf
      (show (hex w).length < 5 by omega) (by omega)
    have htext : t ++ (if decide (i ≠ 0) then [58] else []) ++ hex w =
        t ++ ((if i = 0 then [] else [58]) ++ hex w) := by
      rw [List.append_assoc]
      by_cases hi : i = 0 <;> simp [hi]
    rw [htext] at hprints₂
    obtain ⟨o', hrest, hprints', hlen'⟩ :=
      ih (i := i + 1) (o := o₂) (fun j hj hj' => hout j (by omega) (by omega))
      hprints₂ (by rw [← htext, List.length_append]; omega) (by omega)
      (fun w' hw' => hws w' (List.mem_cons_of_mem _ hw'))
    have hindex : i + 1 + ws.length = i + (ws.length + 1) := by omega
    rw [hindex] at hrest hlen'
    rw [List.append_assoc] at hprints' hlen'
    refine ⟨o', ?_, hprints', hlen'⟩
    rw [← hrest, List.cons_append, format6]
    simp only [hinside, hcolon, hquad, hprintf, Except.bind, if_false, Bool.false_eq_true]

/-- **The run that is not.** -/
theorem format6_run (hin : ∀ j, i ≤ j → j < i + ws.length →
      inside best j = true ∧ isBase best j = false) :
    format6 tmp4 src words best i o (ws ++ rest) =
      format6 tmp4 src words best (i + ws.length) o rest := by
  induction ws generalizing i with
  | nil => rfl
  | cons w ws ih =>
    rw [List.length_cons] at hin ⊢
    obtain ⟨hinside, hbase⟩ := hin i le_rfl (by omega)
    have hindex : i + 1 + ws.length = i + (ws.length + 1) := by omega
    rw [← hindex, ← ih (i := i + 1) (fun j hj hj' => hin j (by omega) (by omega)), List.cons_append,
      format6]
    simp only [hinside, hbase, Out.colonIf, Except.bind, if_true, if_false, Bool.false_eq_true]

/-- What is printed behind the run. -/
def backText (words : List ℕ) (quad : List UInt8) (r : ZeroRun) : List UInt8 :=
  if isQuad words (some r) 6 then
    if r.len = 6 then dotted quad else hex 0xffff ++ 58 :: dotted quad
  else join (words.drop (r.base + r.len))

/-- **The text of an address.** -/
def text6 (words : List ℕ) (quad : List UInt8) : List UInt8 :=
  match bestRun words with
  | none => join words
  | some r => join (words.take r.base) ++ 58 :: 58 :: backText words quad r

/-- The text of the address at `src`. -/
def addressText (src : List UInt8) : List UInt8 := text6 (words6 src) (src.drop 12)

/-- Two bytes make a word. -/
theorem word_eq (a b : UInt8) : 0 ||| a.toNat <<< 8 ||| b.toNat <<< 0 = ofBE [a, b] := by
  have hor := Nat.shiftLeft_add_eq_or_of_lt (show b.toNat < 2 ^ 8 from b.toNat_lt) a.toNat
  have hshift : a.toNat <<< 8 = a.toNat * 256 := Nat.shiftLeft_eq _ _
  rw [Nat.zero_or, Nat.shiftLeft_zero, ← hor, hshift]
  simp [ofBE, ofLE]
  omega

/-- The words spell the bytes. -/
theorem words6_spec (hsrc : src.length = 16) : (words6 src).length = 8 ∧
    (∀ w ∈ words6 src, w < 2 ^ 16) ∧ (words6 src).flatMap (toBE 2) = src := by
  match src, hsrc with
  | [a₀, a₁, a₂, a₃, a₄, a₅, a₆, a₇, a₈, a₉, a₁₀, a₁₁, a₁₂, a₁₃, a₁₄, a₁₅], _ =>
    have hwords : words6 [a₀, a₁, a₂, a₃, a₄, a₅, a₆, a₇, a₈, a₉, a₁₀, a₁₁, a₁₂, a₁₃, a₁₄, a₁₅] =
        [ofBE [a₀, a₁], ofBE [a₂, a₃], ofBE [a₄, a₅], ofBE [a₆, a₇], ofBE [a₈, a₉],
          ofBE [a₁₀, a₁₁], ofBE [a₁₂, a₁₃], ofBE [a₁₄, a₁₅]] := by
      simp only [← word_eq]
      rfl
    have hlt : ∀ a b : UInt8, ofBE [a, b] < 2 ^ 16 := fun a b => by simpa using ofBE_lt [a, b]
    have hspell : ∀ a b : UInt8, toBE 2 (ofBE [a, b]) = [a, b] := fun a b => toBE_ofBE [a, b]
    rw [hwords]
    refine ⟨rfl, fun w hw => ?_, by simp [hspell]⟩
    simp only [List.mem_cons, List.not_mem_nil, or_false] at hw
    rcases hw with rfl | rfl | rfl | rfl | rfl | rfl | rfl | rfl <;> exact hlt _ _

/-- **The run, which is a colon.** -/
theorem format6_colon (tmp4 src : List UInt8) (hr : r.Zeros words) (hlen : words.length = 8)
    (hprints : o.Prints t)
    (hroom : t.length < 46) : ∃ o', o'.Prints (t ++ [58]) ∧
      format6 tmp4 src words (some r) r.base o (words.drop r.base) =
        format6 tmp4 src words (some r) (r.base + r.len) o' (words.drop (r.base + r.len)) := by
  obtain ⟨hpos, hzeros⟩ := hr
  obtain ⟨hlast, -⟩ := List.getElem?_eq_some_iff.mp
    (hzeros (r.base + r.len - 1) (by omega) (by omega))
  have hin : ∀ j, r.base ≤ j → j < r.base + r.len → inside (some r) j = true := fun j hj hj' =>
    decide_eq_true ⟨hj, hj'⟩
  obtain ⟨o', hput, hprints'⟩ := hprints.put 58 hroom
  refine ⟨o', hprints', ?_⟩
  have hfirst : words.drop r.base = 0 :: words.drop (r.base + 1) := by
    rw [List.drop_eq_getElem_cons (by omega)]
    congr 1
    have hzero := hzeros r.base le_rfl (by omega)
    rw [List.getElem?_eq_getElem (by omega)] at hzero
    exact Option.some.inj hzero
  have hsplit : words.drop (r.base + 1) =
      (words.drop (r.base + 1)).take (r.len - 1) ++ words.drop (r.base + r.len) := by
    conv_lhs => rw [← List.take_append_drop (r.len - 1) (words.drop (r.base + 1)), List.drop_drop]
    rw [show r.base + 1 + (r.len - 1) = r.base + r.len by omega]
  have htake : ((words.drop (r.base + 1)).take (r.len - 1)).length = r.len - 1 := by
    rw [List.length_take, List.length_drop]
    omega
  have hbase : isBase (some r) r.base = true := decide_eq_true rfl
  rw [hfirst, format6]
  simp only [hin r.base le_rfl (by omega), hbase, Out.colonIf, hput, Except.bind, if_true]
  rw [hsplit,
    format6_run (fun j hj hj' => ⟨hin j (by omega) (by omega), decide_eq_false (by omega)⟩),
    htake, show r.base + 1 + (r.len - 1) = r.base + r.len by omega]

/-- **The words that are a quad.** -/
theorem format6_quad (hquad : isQuad words (some r) 6 = true) (hlen : words.length = 8)
    (htmp4 : tmp4.length = 16) (hsrc : src.length = 16) (hprints : o.Prints t)
    (hroom : t.length + 17 ≤ 46) :
    ∃ o', format6 tmp4 src words (some r) 6 o (words.drop 6) = .ok o' ∧
      o'.Prints (t ++ 58 :: dotted (src.drop 12)) := by
  obtain ⟨-, hbase, hrun⟩ := of_decide_eq_true hquad
  have hinside : inside (some r) 6 = false := decide_eq_false (by omega)
  obtain ⟨o₁, hcolon, hprints₁⟩ := hprints.put 58 (by omega)
  obtain ⟨o₂, hq, hprints₂⟩ := hprints₁.quad htmp4 hsrc
    (by rw [List.length_append, List.length_singleton]; omega)
  rw [List.append_assoc] at hprints₂
  refine ⟨o₂, ?_, hprints₂⟩
  rw [List.drop_eq_getElem_cons (by omega), format6]
  simp only [hinside, Out.colonIf, hcolon, hquad, hq, Except.bind, Bool.false_eq_true, if_false,
    if_true,
    ne_eq, OfNat.ofNat_ne_zero, not_false_eq_true, decide_true]

/-- **What follows the run.** -/
theorem format6_back (hr : 2 ≤ r.len) (hle : r.base + r.len ≤ 8) (hlen : words.length = 8)
    (hlt : ∀ w ∈ words, w < 2 ^ 16) (htmp4 : tmp4.length = 16) (hsrc : src.length = 16)
    (hprints : o.Prints t) (ht : t.length ≤ 5 * (r.base + r.len))
    (hone : r.base = 0 → t.length = 1) :
    ∃ o₁ o₂, format6 tmp4 src words (some r) (r.base + r.len) o (words.drop (r.base + r.len)) =
        .ok o₁ ∧ o₁.colonIf (isTrailing (some r)) = .ok o₂ ∧
      o₂.Prints (t ++ 58 :: backText words (src.drop 12) r) ∧
        (t ++ 58 :: backText words (src.drop 12) r).length < 46 := by
  have hquad : (src.drop 12).length = 4 := by rw [List.length_drop, hsrc]
  have hshort := length_dotted_le hquad
  have hffff : (hex 0xffff).length ≤ 4 := length_hex_le (by decide)
  rcases hq : isQuad words (some r) 6 with _ | _
  · have hback : backText words (src.drop 12) r = join (words.drop (r.base + r.len)) := by
      rw [backText, hq]
      rfl
    have hout : ∀ j, r.base + r.len ≤ j →
        j < r.base + r.len + (words.drop (r.base + r.len)).length →
        inside (some r) j = false ∧ isQuad words (some r) j = false := fun j hj _ => by
      refine ⟨decide_eq_false (by omega), decide_eq_false fun h => ?_⟩
      -- the test is that of the word 6
      rw [isQuad, decide_eq_false_iff_not] at hq
      exact hq ⟨rfl, h.2⟩
    obtain ⟨o₁, hformat, hprints₁, hle₁⟩ := format6_words tmp4 src [] hout hprints ht
      (by rw [List.length_drop]; omega) (fun w hw => hlt w (List.mem_of_mem_drop hw))
    rw [List.append_nil] at hformat
    rw [hback]
    by_cases hend : r.base + r.len = 8
    · have hnil : words.drop (r.base + r.len) = [] := List.drop_eq_nil_of_le (by omega)
      obtain ⟨o₂, hput, hprints₂⟩ := hprints.put 58 (by omega)
      rw [hnil]
      refine ⟨o, o₂, rfl, ?_, hprints₂, by rw [show join [] = [] from rfl]; simp; omega⟩
      rw [show isTrailing (some r) = true from decide_eq_true hend]
      exact hput
    · have hne : words.drop (r.base + r.len) ≠ [] := by
        rw [ne_eq, List.drop_eq_nil_iff]
        omega
      obtain ⟨i, hi⟩ : ∃ i, r.base + r.len = i + 1 := ⟨r.base + r.len - 1, by omega⟩
      have htext : wordsText (r.base + r.len) (words.drop (r.base + r.len)) =
          58 :: join (words.drop (r.base + r.len)) := by
        rw [hi] at hne ⊢
        exact wordsText_succ i _ hne
      rw [htext] at hprints₁ hle₁
      refine ⟨o₁, o₁, hformat, ?_, hprints₁, ?_⟩
      · rw [show isTrailing (some r) = false from decide_eq_false hend]
        rfl
      · rw [List.length_drop] at hle₁
        omega
  · obtain ⟨-, hbase, hrun⟩ := of_decide_eq_true hq
    have hone := hone hbase
    have htrailing : isTrailing (some r) = false := decide_eq_false (by omega)
    rcases hrun with hsix | ⟨hfive, hword⟩
    · have hback : backText words (src.drop 12) r = dotted (src.drop 12) := by
        rw [backText, hq, if_pos rfl, if_pos hsix]
      obtain ⟨o', hformat, hprints'⟩ := format6_quad hq hlen htmp4 hsrc hprints (by omega)
      rw [hback, htrailing, hbase, hsix]
      refine ⟨o', o', hformat, rfl, hprints', ?_⟩
      rw [List.length_append, List.length_cons]
      omega
    · have hback : backText words (src.drop 12) r = hex 0xffff ++ 58 :: dotted (src.drop 12) := by
        rw [backText, hq, if_pos rfl, if_neg (by omega)]
      have hout : ∀ j, 5 ≤ j → j < 5 + [0xffff].length →
          inside (some r) j = false ∧ isQuad words (some r) j = false := fun j hj hj' => by
        rw [List.length_singleton] at hj'
        exact ⟨decide_eq_false (by omega), decide_eq_false (by omega)⟩
      obtain ⟨o₁, hformat, hprints₁, hle₁⟩ := format6_words tmp4 src (words.drop 6) hout hprints
        (by omega) (by simp) (by simp)
      have htext : wordsText 5 [0xffff] = 58 :: hex 0xffff := by
        rw [wordsText_succ 4 _ (by simp), join_singleton]
      have hdrop : words.drop 5 = [0xffff] ++ words.drop 6 := by
        rw [List.drop_eq_getElem_cons (by omega)]
        rw [List.getElem?_eq_getElem (by omega)] at hword
        rw [Option.some.inj hword]
        rfl
      rw [htext] at hprints₁ hle₁
      obtain ⟨o', hformat', hprints'⟩ := format6_quad hq hlen htmp4 hsrc hprints₁
        (by rw [List.length_append, List.length_cons]; omega)
      rw [hback, htrailing, hbase, hfive, Nat.zero_add, hdrop, hformat]
      refine ⟨o', o', hformat', rfl, by simpa using hprints', ?_⟩
      simp only [List.length_append, List.length_cons]
      omega

/-- **All that is printed**, for the bytes at `src`. -/
theorem print6_eq {tmp : List UInt8} (htmp : tmp.length = 46) (htmp4 : tmp4.length = 16)
    (hsrc : src.length = 16) : ∃ o, print6 tmp tmp4 src = .ok o ∧
      o.Prints (addressText src ++ [0]) := by
  obtain ⟨hlen, hlt, -⟩ := words6_spec hsrc
  have hlongest := bestRun_longest (words6 src)
  have hstart : (⟨tmp, 0⟩ : Out).Prints [] := ⟨rfl, tmp, rfl, by simpa using htmp⟩
  unfold print6 addressText text6
  generalize words6 src = words at hlen hlt hlongest ⊢
  rcases hbest : bestRun words with _ | r
  · have hout : ∀ j, 0 ≤ j → j < 0 + words.length →
        inside none j = false ∧ isQuad words none j = false :=
      fun j _ _ => ⟨rfl, rfl⟩
    obtain ⟨o, hformat, hprints, hle⟩ := format6_words tmp4 src [] hout hstart le_rfl (by omega)
      hlt
    rw [List.append_nil] at hformat
    rw [wordsText_zero, List.nil_append] at hprints hle
    obtain ⟨o', hput, hprints'⟩ := hprints.put 0 (by omega)
    refine ⟨o', ?_, hprints'⟩
    show (format6 tmp4 src words (bestRun words) 0 ⟨tmp, 0⟩ words).bind _ = _
    rw [hbest, hformat]
    exact hput
  · rw [hbest] at hlongest
    obtain ⟨htwo, hzeros, -⟩ := hlongest
    obtain ⟨hlast, -⟩ := List.getElem?_eq_some_iff.mp
      (hzeros.2 (r.base + r.len - 1) (by omega) (by omega))
    have hfront : (words.take r.base).length = r.base := List.length_take_of_le (by omega)
    have hout : ∀ j, 0 ≤ j → j < 0 + (words.take r.base).length →
        inside (some r) j = false ∧ isQuad words (some r) j = false := fun j _ hj =>
      ⟨decide_eq_false (by omega), decide_eq_false (by omega)⟩
    obtain ⟨o, hformat, hprints, hle⟩ := format6_words tmp4 src (words.drop r.base) hout hstart
      le_rfl (by omega)
      (fun w hw => hlt w (List.mem_of_mem_take hw))
    rw [List.take_append_drop, Nat.zero_add, hfront] at hformat
    rw [wordsText_zero, List.nil_append, Nat.zero_add, hfront] at hle
    rw [wordsText_zero, List.nil_append] at hprints
    obtain ⟨o₁, hprints₁, hcolon⟩ := format6_colon tmp4 src hzeros hlen hprints (by omega)
    obtain ⟨o₂, o₃, hback, htrailing, hprints₃, hshort⟩ :=
      format6_back htwo (by omega) hlen hlt htmp4
      hsrc hprints₁ (by rw [List.length_append, List.length_singleton]; omega)
      (fun hzero => by rw [hzero]; rfl)
    rw [List.append_assoc] at hprints₃ hshort
    obtain ⟨o', hput, hprints'⟩ := hprints₃.put 0 hshort
    refine ⟨o', ?_, hprints'⟩
    show (format6 tmp4 src words (bestRun words) 0 ⟨tmp, 0⟩ words).bind _ = _
    rw [hbest, hformat, hcolon, hback]
    simp only [Except.bind, htrailing, hput]

/-- **`inet_ntop6`** prints where there is room for the text and its NUL. -/
theorem inetNtop6_eq {tmp dst : List UInt8} {size : ℕ} (htmp : tmp.length = 46)
    (htmp4 : tmp4.length = 16) (hsrc : 16 ≤ src.length) (hdst : size ≤ dst.length) :
    inetNtop6 tmp tmp4 src dst size =
      if (addressText (src.take 16)).length < size then
        some (true, blit dst 0 (addressText (src.take 16) ++ [0]))
      else some (false, dst) := by
  have hsixteen : (src.take 16).length = 16 := List.length_take_of_le hsrc
  obtain ⟨o, hprint, htp, rest, ho, hlen⟩ := print6_eq htmp htmp4 hsixteen
  rw [inetNtop6, readAt_eq (by omega), Option.bind_some, List.drop_zero]
  simp only [hprint]
  generalize addressText (src.take 16) = text at htp ho hlen ⊢
  rw [List.length_append, List.length_singleton] at htp hlen
  by_cases hroom : text.length < size
  · have hfull : o.tmp.length = 46 := by
      rw [ho, List.length_append, List.length_append, List.length_singleton]
      exact hlen
    have htake : o.tmp.take o.tp = text ++ [0] := by
      rw [ho, List.take_left' (by rw [List.length_append, List.length_singleton, htp])]
    rw [if_neg (by omega), if_pos hroom, memcpy_eq (by omega) (by omega), List.drop_zero, htake,
      Option.map_some]
  · rw [if_pos (by omega), if_neg hroom]

/-- The buffer that the text is put together in has room for it. -/
theorem length_addressText_lt (hsrc : src.length = 16) : (addressText src).length < 46 := by
  obtain ⟨o, -, -, rest, -, hlen⟩ := @print6_eq (List.replicate 16 0) src
    (List.replicate 46 0) List.length_replicate List.length_replicate hsrc
  rw [List.length_append, List.length_singleton] at hlen
  omega

/-! ## The address is read back -/

theorem xdigit_xdigitsL {d : ℕ} (hd : d < 16) : xdigit (xdigitsL.getD d 0) = some d := by
  interval_cases d <;> rfl

/-- What `%x` prints is read. -/
theorem group_hex {w : ℕ} (hw : w < 2 ^ 16) : Group (hex w) w :=
  ⟨numeral 16 w, numeral_ne_nil _ _,
    .of_map _ fun d hd => xdigit_xdigitsL (lt_of_mem_numeral (by decide) hd), value_numeral _ _,
    Nat.le_of_lt_succ hw⟩

variable {c c' : Option ℕ} {p : ℕ} {bs : List UInt8}

theorem reads_join (hws : ∀ w ∈ ws, w < 2 ^ 16) (hne : ws ≠ []) :
    Reads c p (join ws) (ws.flatMap (toBE 2)) c := by
  induction ws generalizing p with
  | nil => exact absurd rfl hne
  | cons w ws ih =>
    have hgroup := group_hex (hws w (by simp))
    cases ws with
    | nil =>
      rw [join_singleton, List.flatMap_cons, List.flatMap_nil, List.append_nil]
      exact .last hgroup
    | cons w' ws =>
      rw [join_cons_cons, List.flatMap_cons]
      exact .group hgroup (ih (fun w hw => hws w (List.mem_cons_of_mem _ hw)) (by simp))

/-- Words in front of a `:`. -/
theorem reads_front (hws : ∀ w ∈ ws, w < 2 ^ 16) (hne : ws ≠ [])
    (h : Reads c (p + 2 * ws.length) text bs c') :
    Reads c p (join ws ++ 58 :: text) (ws.flatMap (toBE 2) ++ bs) c' := by
  induction ws generalizing p with
  | nil => exact absurd rfl hne
  | cons w ws ih =>
    have hgroup := group_hex (hws w (by simp))
    cases ws with
    | nil =>
      rw [join_singleton, List.flatMap_cons, List.flatMap_nil, List.append_nil]
      exact .group hgroup h
    | cons w' ws =>
      rw [join_cons_cons, List.flatMap_cons, List.append_assoc, List.append_assoc, List.cons_append]
      refine .group hgroup (ih (fun w hw => hws w (List.mem_cons_of_mem _ hw)) (by simp) ?_)
      have hlen : p + 2 + 2 * (w' :: ws).length = p + 2 * (w :: w' :: ws).length := by
        simp only [List.length_cons]
        omega
      rwa [hlen]

/-- A text that begins with a word has no colon in front. -/
theorem start6_join (hws : ∀ w ∈ ws, w < 2 ^ 16) (hne : ws ≠ []) (t : List UInt8) :
    start6 (join ws ++ t) = some (join ws ++ t) := by
  obtain ⟨w, ws, rfl⟩ := List.exists_cons_of_ne_nil hne
  obtain ⟨ds, hds, hspells, -, -⟩ := group_hex (hws w (by simp))
  obtain ⟨ch, g, hg⟩ : ∃ ch g, hex w = ch :: g := by
    refine List.exists_cons_of_ne_nil fun hnil => hds ?_
    rw [hnil] at hspells
    exact List.eq_nil_of_length_eq_zero hspells.length_eq.symm
  rw [hg] at hspells
  obtain ⟨d, -, -, hch, -⟩ := Spells.cons_iff.mp hspells
  have hcolon : ch ≠ 58 := by
    rintro rfl
    cases hch
  have hhead : (join (w :: ws) ++ t).head? = some ch := by
    cases ws with
    | nil => rw [join_singleton, hg]; rfl
    | cons w' ws => rw [join_cons_cons, hg]; rfl
  rw [start6, hhead, if_neg (by simpa using hcolon)]

theorem flatMap_zeros (n : ℕ) :
    (List.replicate n 0).flatMap (toBE 2) = List.replicate (2 * n) 0 := by
  induction n with
  | zero => rfl
  | succ n ih =>
    rw [List.replicate_succ, List.flatMap_cons, ih, show 2 * (n + 1) = 2 * n + 1 + 1 by omega,
      List.replicate_succ, List.replicate_succ]
    rfl

theorem length_flatMap_toBE (ws : List ℕ) : (ws.flatMap (toBE 2)).length = 2 * ws.length := by
  induction ws with
  | nil => rfl
  | cons w ws ih =>
    rw [List.flatMap_cons, List.length_append, ih, length_toBE, List.length_cons]
    omega

/-- The words around a run. -/
theorem ZeroRun.Zeros.split (hr : r.Zeros words) : words =
    words.take r.base ++ (List.replicate r.len 0 ++ words.drop (r.base + r.len)) := by
  obtain ⟨hpos, hzeros⟩ := hr
  obtain ⟨hlast, -⟩ := List.getElem?_eq_some_iff.mp
    (hzeros (r.base + r.len - 1) (by omega) (by omega))
  have hrun : (words.drop r.base).take r.len = List.replicate r.len 0 := by
    refine List.eq_replicate_iff.mpr ⟨?_, fun w hw => ?_⟩
    · rw [List.length_take, List.length_drop]
      omega
    · obtain ⟨j, hj⟩ := List.mem_iff_getElem?.mp hw
      obtain ⟨hj, hw⟩ : j < r.len ∧ words[r.base + j]? = some w := by
        rw [List.getElem?_take] at hj
        split at hj
        · next hlt => exact ⟨hlt, by rwa [List.getElem?_drop] at hj⟩
        · cases hj
      rw [hzeros (r.base + j) (by omega) (by omega)] at hw
      exact (Option.some.inj hw).symm
  rw [← hrun, ← List.drop_drop, List.take_append_drop, List.take_append_drop]

/-- **What follows the run is read.** -/
theorem reads_back (hlen : words.length = 8) (hlt : ∀ w ∈ words, w < 2 ^ 16) {quad : List UInt8}
    (hquad : quad.length = 4) (hwords : (words.drop 6).flatMap (toBE 2) = quad) :
    Reads c p (backText words quad r) ((words.drop (r.base + r.len)).flatMap (toBE 2)) c := by
  unfold backText
  split
  · next hq =>
    obtain ⟨-, hbase, hrun⟩ := of_decide_eq_true hq
    rcases hrun with hsix | ⟨hfive, hword⟩
    · rw [if_pos hsix, hbase, hsix, Nat.zero_add, hwords]
      exact .quad (dottedQuad_dotted hquad)
    · have hdrop : words.drop 5 = 0xffff :: words.drop 6 := by
        rw [List.drop_eq_getElem_cons (by omega)]
        rw [List.getElem?_eq_getElem (by omega)] at hword
        rw [Option.some.inj hword]
      rw [if_neg (by omega), hbase, hfive, Nat.zero_add, hdrop, List.flatMap_cons, hwords]
      exact .group (group_hex (by decide)) (.quad (dottedQuad_dotted hquad))
  · rcases hws : words.drop (r.base + r.len) with _ | ⟨w, ws⟩
    · exact .done
    · refine reads_join (fun w' hw' => hlt w' ?_) (by simp)
      rw [← hws] at hw'
      exact List.mem_of_mem_drop hw'

/-- **What is printed for an address is that address.** -/
theorem address6_addressText (hsrc : src.length = 16) : Address6 (addressText src) src := by
  obtain ⟨hlen, hlt, hbytes⟩ := words6_spec hsrc
  have hquad : (src.drop 12).length = 4 := by rw [List.length_drop, hsrc]
  have hlongest := bestRun_longest (words6 src)
  have hsix : ((words6 src).drop 6).flatMap (toBE 2) = src.drop 12 := by
    have htake : (((words6 src).take 6).flatMap (toBE 2)).length = 12 := by
      rw [length_flatMap_toBE, List.length_take, hlen]
      rfl
    have hsplit := congrArg (List.drop 12) hbytes
    rwa [← List.take_append_drop 6 (words6 src), List.flatMap_append,
      List.drop_left' htake] at hsplit
  unfold addressText text6
  generalize words6 src = words at hlen hlt hbytes hlongest hsix ⊢
  rcases hbest : bestRun words with _ | r
  · have hne : words ≠ [] := by
      rintro rfl
      cases hlen
    have hstart := start6_join hlt hne []
    rw [List.append_nil] at hstart
    have hreads : Reads none 0 (join words) (words.flatMap (toBE 2)) none := reads_join hlt hne
    rw [hbytes] at hreads
    exact .plain hstart hreads hsrc
  · rw [hbest] at hlongest
    obtain ⟨htwo, hzeros, -⟩ := hlongest
    have hsplit := hzeros.split
    have hcount := congrArg List.length hsplit
    rw [List.length_append, List.length_append, List.length_take, List.length_replicate,
      List.length_drop, hlen] at hcount
    have hfront : (words.take r.base).length = r.base := by
      rw [List.length_take, hlen]
      omega
    have hback : ∀ c p, Reads c p (backText words (src.drop 12) r)
        ((words.drop (r.base + r.len)).flatMap (toBE 2)) c :=
      fun c p => reads_back hlen hlt hquad hsix
    have hF := length_flatMap_toBE (words.take r.base)
    have hB := length_flatMap_toBE (words.drop (r.base + r.len))
    rw [hfront] at hF
    rw [List.length_drop, hlen] at hB
    -- the bytes of the address are those in front of the run, its zeros, and those behind it
    rw [hsplit, List.flatMap_append, List.flatMap_append, flatMap_zeros] at hbytes
    generalize hfrontB : (words.take r.base).flatMap (toBE 2) = F at hF hbytes
    generalize (words.drop (r.base + r.len)).flatMap (toBE 2) = B at hB hback hbytes
    have hspread : spread (F ++ B) (2 * r.base) = src := by
      have hsum : (F ++ B).length = 16 - 2 * r.len := by
        rw [List.length_append]
        omega
      rw [spread, if_pos (by omega), List.take_left' hF, List.drop_left' hF, hsum,
        show 16 - (16 - 2 * r.len) = 2 * r.len by omega, List.append_assoc]
      exact hbytes
    have hle : (F ++ B).length ≤ 16 := by
      rw [List.length_append]
      omega
    have haddress :
        Address6 (join (words.take r.base) ++ 58 :: 58 :: backText words (src.drop 12) r)
        (spread (F ++ B) (2 * r.base)) := by
      rcases Nat.eq_zero_or_pos r.base with hzero | hpos
      · have hnil : F = [] := List.eq_nil_of_length_eq_zero (by omega)
        rw [hnil] at hle
        rw [hzero, hnil]
        exact .gap (t := 58 :: backText words (src.drop 12) r) rfl (.gap (hback _ _)) hle
      · have hws : ∀ w ∈ words.take r.base, w < 2 ^ 16 := fun w hw =>
          hlt w (List.mem_of_mem_take hw)
        have hne : words.take r.base ≠ [] := List.ne_nil_of_length_pos (by omega)
        refine .gap (start6_join hws hne _) ?_ hle
        rw [← hfrontB]
        refine reads_front hws hne ?_
        rw [hfront, Nat.zero_add]
        exact .gap (hback _ _)
    rw [hspread] at haddress
    exact haddress

theorem zero_notMem_hex (w : ℕ) : (0 : UInt8) ∉ hex w := by
  intro hmem
  obtain ⟨d, hd, hzero⟩ := List.mem_map.mp hmem
  have hlt : d < 16 := lt_of_mem_numeral (by decide) hd
  have hread := xdigit_xdigitsL hlt
  rw [hzero] at hread
  cases hread

theorem zero_notMem_join (ws : List ℕ) : (0 : UInt8) ∉ join ws := by
  induction ws with
  | nil => exact List.not_mem_nil
  | cons w ws ih =>
    cases ws with
    | nil =>
      rw [join_singleton]
      exact zero_notMem_hex w
    | cons w' ws =>
      rw [join_cons_cons]
      simp [zero_notMem_hex, ih]

theorem zero_notMem_addressText (hsrc : src.length = 16) : (0 : UInt8) ∉ addressText src := by
  have hquad : (src.drop 12).length = 4 := by rw [List.length_drop, hsrc]
  have hdotted := zero_notMem_dotted hquad
  unfold addressText text6 backText
  split
  · exact zero_notMem_join _
  · split_ifs <;> simp [zero_notMem_join, zero_notMem_hex, hdotted]

/-- **An address is read back from its text**, whatever the address is and
whatever was in the buffers. -/
theorem inetPton6_inetNtop6 {tmp tmp4' dst dst' tail : List UInt8} {size : ℕ}
    (htmp : tmp.length = 46) (htmp4 : tmp4.length = 16) (htmp4' : tmp4'.length = 4)
    (hsrc : src.length = 16) (hsize : 46 ≤ size) (hdst : size ≤ dst.length)
    (hdst' : 16 ≤ dst'.length) :
    ∃ text, inetNtop6 tmp tmp4 src dst size = some (true, blit dst 0 (text ++ [0])) ∧
      inetPton6 tmp4' (text ++ 0 :: tail) dst' = some (1, blit dst' 0 src) := by
  have htake : src.take 16 = src := List.take_of_length_le hsrc.le
  have hprint := inetNtop6_eq htmp htmp4 hsrc.ge hdst
  rw [htake, if_pos ((length_addressText_lt hsrc).trans_le hsize)] at hprint
  refine ⟨addressText src, hprint, inetPton6_of_address htmp4' hdst' ?_⟩
  rw [chars_append_nul (zero_notMem_addressText hsrc)]
  exact address6_addressText hsrc

end Inet

end EupuServer
