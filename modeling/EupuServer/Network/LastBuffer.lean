import EupuServer.Network.RecvEnding
import EupuServer.Network.Reassembly
/-!
# The buffer with which the end is found

`recv_msg` gathers bytes until the buffer is full or `recv` has none, and
reports how it came to stop. Full buffers are parsed whatever comes after
them. The last one is parsed where the stream ends, and not where `recv`
fails: `lastBuffer` is that buffer, and its frames are the difference.
-/

namespace EupuServer

namespace Network

open Bytes Protocol

/-! ## What arrives before the end -/

/-- **Results that bring bytes**, or are tried again. -/
def Brings (ds : List RecvResult) : Prop := ∀ r ∈ ds, r = .eintr ∨ ∃ b bs, r = .data (b :: bs)

variable {ds : List RecvResult} {t : RecvResult} {n : ℕ}

theorem Brings.tail {r : RecvResult} (h : Brings (r :: ds)) : Brings ds :=
  fun r' hr' => h r' (List.mem_cons_of_mem _ hr')

/-- Where the bytes leave room they are all stored, and what ends them gives
the result. -/
theorem recvMsg_last (code : ℤ) (ht : ∀ n, recvMsg [t] (n + 1) = ⟨[], code, []⟩)
    (hds : Brings ds) (hlt : (arrives ds).length < n) :
    recvMsg (ds ++ [t]) n = ⟨arrives ds, code, []⟩ := by
  induction ds generalizing n with
  | nil =>
    obtain ⟨n, rfl⟩ := Nat.exists_eq_succ_of_ne_zero (Nat.ne_of_gt (Nat.zero_lt_of_lt hlt))
    exact ht n
  | cons r ds ih =>
    obtain ⟨n, rfl⟩ := Nat.exists_eq_succ_of_ne_zero (Nat.ne_of_gt (Nat.zero_lt_of_lt hlt))
    rcases hds r List.mem_cons_self with rfl | ⟨b, bs, rfl⟩
    · exact ih hds.tail hlt
    · simp only [arrives, List.length_append] at hlt
      rw [List.cons_append, recvMsg, if_pos (by omega), ih hds.tail (by omega)]
      rfl

/-- A buffer that is filled says nothing of what comes after it. -/
theorem recvMsg_full (hds : Brings ds) (hle : n ≤ (arrives ds).length) :
    ∃ ds', Brings ds' ∧ arrives ds' = (arrives ds).drop n ∧
      ∀ t, recvMsg (ds ++ [t]) n = ⟨(arrives ds).take n, 2, ds' ++ [t]⟩ := by
  induction ds generalizing n with
  | nil =>
    have h0 : n = 0 := by simpa [arrives] using hle
    subst h0
    exact ⟨[], hds, rfl, fun t => by simp [recvMsg, arrives]⟩
  | cons r ds ih =>
    rcases Nat.eq_zero_or_pos n with rfl | hpos
    · exact ⟨r :: ds, hds, rfl, fun t => by simp [recvMsg]⟩
    · obtain ⟨n, rfl⟩ := Nat.exists_eq_succ_of_ne_zero (Nat.ne_of_gt hpos)
      rcases hds r List.mem_cons_self with rfl | ⟨b, bs, rfl⟩
      · exact ih hds.tail hle
      · simp only [arrives, List.length_append] at hle
        by_cases hfit : (b :: bs).length ≤ n + 1
        · -- the piece is taken whole, and the room behind it is filled
          obtain ⟨ds', hds', hrest, hall⟩ := ih (n := n + 1 - (b :: bs).length) hds.tail (by omega)
          refine ⟨ds', hds', ?_, fun t => ?_⟩
          · rw [hrest, arrives, List.drop_append, List.drop_eq_nil_of_le hfit, List.nil_append]
          · rw [List.cons_append, recvMsg, if_pos hfit, hall, arrives, List.take_append,
              List.take_of_length_le hfit]
        · -- the piece is longer than the room, and its rest comes next
          obtain ⟨c, cs, hdrop, -⟩ := exists_rest (Nat.lt_of_not_le hfit)
          refine ⟨.data (c :: cs) :: ds, ?_, ?_, fun t => ?_⟩
          · intro r hr
            rcases List.mem_cons.mp hr with rfl | hr
            · exact .inr ⟨c, cs, rfl⟩
            · exact hds.tail r hr
          · rw [arrives, arrives, ← hdrop, List.drop_append_of_le_length (by omega)]
          · rw [List.cons_append, recvMsg, if_neg hfit, arrives,
              List.take_append_of_le_length (by omega), hdrop]
            rfl

/-! ## What the last buffer holds -/

/-- The buffer with which the end of the stream is found, where `p` is the
tail in hand and `bytes` arrive: full buffers are parsed before it, and it
is not reached where the parser refuses one. -/
def lastBufferFrom (cap : ℕ) : ℕ → List UInt8 → List UInt8 → List UInt8
  | 0, _, _ => []
  | fuel + 1, p, bytes =>
    if bytes.length < cap - p.length then p ++ bytes
    else
      let buf := p ++ bytes.take (cap - p.length)
      let c := netFraming.split buf
      if c.rejected then []
      else lastBufferFrom cap fuel (savedTail buf c.rest) (bytes.drop (cap - p.length))

/-- A full buffer takes at least one byte, so the bytes bound the rounds. -/
def lastBuffer (cap : ℕ) (p bytes : List UInt8) : List UInt8 :=
  lastBufferFrom cap (bytes.length + 1) p bytes

variable (host : Host) (now : ℤ) {cap : ℕ} {p : List UInt8} {s s₀ : SocketSet}

/-- **What a failing `recv` costs**: where the stream ends, the messages are
those of the call in which `recv` fails, and behind them the frames of the
last buffer. Either way the call ends with the connection closed. -/
theorem recvLoop_lost (hcap : maxSendSize ≤ cap) {fuel k : ℕ}
    (hfuel : scriptWeight (ds ++ [.error]) < fuel) (hk : (arrives ds).length < k)
    (hds : Brings ds) (hp : netFraming.verdict p = .pending) (hs : s.Holds s₀ p) :
    (recvLoop host cap now fuel s (ds ++ [.data []])).msgs =
        (recvLoop host cap now fuel s (ds ++ [.error])).msgs ++
          (netFraming.split (lastBufferFrom cap k p (arrives ds))).frames.map
            (NetData.ofSocket s₀) ∧
      (recvLoop host cap now fuel s (ds ++ [.data []])).ending ≠ .again ∧
      (recvLoop host cap now fuel s (ds ++ [.error])).ending ≠ .again := by
  -- full buffers are parsed alike; the first one that is not full decides
  induction fuel generalizing s p ds k with
  | zero => omega
  | succ fuel ih =>
    obtain ⟨k, rfl⟩ := Nat.exists_eq_succ_of_ne_zero (Nat.ne_of_gt (Nat.zero_lt_of_lt hk))
    have hroom := room_of_pending hcap hp
    have hnow : SocketSet.Holds { s with refreshTime := now } s₀ p :=
      ⟨hs.same, hs.room, hs.len, hs.part⟩
    rw [recvLoop_succ, recvLoop_succ, hs.len, lastBufferFrom]
    by_cases hlast : (arrives ds).length < cap - p.length
    · obtain ⟨o, ho, -, hmsgs, -⟩ := parse_spec host hp hnow (arrives ds)
      change recvRound host now s (arrives ds) = o at ho
      rw [recvMsg_last 0 (fun _ => rfl) hds hlast, recvMsg_last (-1) (fun _ => rfl) hds hlast,
        if_pos hlast]
      simp only [lt_irrefl, if_false, ho, true_or, if_true, Int.reduceNeg, Int.reduceLT,
        List.nil_append]
      refine ⟨hmsgs, ?_, by simp⟩
      split <;> simp
    · obtain ⟨ds', hds', hrest, hall⟩ := recvMsg_full hds (by omega : cap - p.length ≤ _)
      obtain ⟨o, ho, hok, hmsgs, hsock⟩ :=
        parse_spec host hp hnow ((arrives ds).take (cap - p.length))
      change recvRound host now s ((arrives ds).take (cap - p.length)) = o at ho
      have hless := (recvMsg_weight (ds ++ [.error]) (cap - p.length)).2 hroom (by rw [hall])
      rw [hall] at hless
      dsimp only at hless
      rw [hall, hall, if_neg hlast]
      simp only [ho, if_false, Int.reduceLT]
      rcases hrej : o.ok with _ | _
      · -- the parser refuses a buffer before the end is found
        rw [hrej, eq_comm, Bool.not_eq_false_eq_eq_true] at hok
        rw [if_pos (.inr rfl), hok, if_pos rfl, Framing.split_nil]
        exact ⟨(List.append_nil _).symm, by simp, by simp⟩
      · rw [hrej, eq_comm, Bool.not_eq_true_eq_eq_false] at hok
        have hlen : ((arrives ds).take (cap - p.length)).length = cap - p.length :=
          List.length_take_of_le (by omega)
        obtain ⟨hlost, hclosed, herror⟩ := ih (s := o.sock) (k := k) (by omega)
          (by rw [hrest, List.length_drop]; omega) hds'
          (verdict_savedTail (Framing.verdict_rest hok)) (hsock hrej)
        rw [if_neg (by simp), if_neg (by simp), if_neg (by simp), if_neg (by simp), hok,
          if_neg (by simp), ← hrest]
        exact ⟨by rw [hlost, List.append_assoc], hclosed, herror⟩

end Network

end EupuServer
