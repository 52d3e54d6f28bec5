import EupuServer.Network.Receive
/-!
# How the receive loop ends

The loop goes on as long as `recv_msg` fills the buffer and the parser takes
it, and the first round that is otherwise ends it. `RecvEnds` says this of
what arrives, round by round, and `recvMessage_ending_iff` that the loop
ends so. An answer that is no bytes and no interrupt ends it as well, and
leaves what is behind it (`recvLoop_endsInside`).
-/

namespace EupuServer

namespace Network

open Bytes Protocol

variable (host : Host) (cap : ℕ) (now : ℤ)

/-- What one round of the loop makes of the bytes it got. -/
def recvRound (x : SocketSet) (bytes : List UInt8) : ParseOut :=
  if bytes.length > 0 then
    parsePacketToRecvQueue host { x with refreshTime := now, partLen := 0 }
      (x.partBuf.take x.partLen ++ bytes)
  else ⟨true, { x with refreshTime := now }, []⟩

/-- **How the loop ends** on the connection `x` and what its `recv` calls
answer. -/
inductive RecvEnds : RecvEnding → SocketSet → List RecvResult → Prop
  /-- `recv` failed -/
  | error {x : SocketSet} {script : List RecvResult}
      (hfail : (recvMsg script (cap - x.partLen)).nret < 0) : RecvEnds .error x script
  /-- the parser refused what was read -/
  | rejected {x : SocketSet} {script : List RecvResult}
      (hread : 0 ≤ (recvMsg script (cap - x.partLen)).nret)
      (hno : (recvRound host now x (recvMsg script (cap - x.partLen)).bytes).ok = false) :
    RecvEnds .rejected x script
  /-- the peer closed -/
  | closed {x : SocketSet} {script : List RecvResult}
      (hread : (recvMsg script (cap - x.partLen)).nret = 0)
      (hok : (recvRound host now x (recvMsg script (cap - x.partLen)).bytes).ok = true) :
    RecvEnds .closed x script
  /-- nothing more is there -/
  | again {x : SocketSet} {script : List RecvResult}
      (hread : (recvMsg script (cap - x.partLen)).nret = 1)
      (hok : (recvRound host now x (recvMsg script (cap - x.partLen)).bytes).ok = true) :
    RecvEnds .again x script
  /-- the buffer was filled and taken, and the loop goes on -/
  | more {e : RecvEnding} {x : SocketSet} {script : List RecvResult}
      (hread : (recvMsg script (cap - x.partLen)).nret = 2)
      (hok : (recvRound host now x (recvMsg script (cap - x.partLen)).bytes).ok = true)
      (hrest : RecvEnds e (recvRound host now x (recvMsg script (cap - x.partLen)).bytes).sock
        (recvMsg script (cap - x.partLen)).rest) :
    RecvEnds e x script

/-- **The rounds behind it**: the loop began with the connection `x` and the
answers `script`, filled its buffer and had it taken in every round so far,
and goes on with `y` and the answers that are left. -/
inductive RecvRounds (x : SocketSet) (script : List RecvResult) :
    SocketSet → List RecvResult → Prop
  | start : RecvRounds x script x script
  | more {y : SocketSet} {left : List RecvResult} (hrounds : RecvRounds x script y left)
      (hread : (recvMsg left (cap - y.partLen)).nret = 2)
      (hok : (recvRound host now y (recvMsg left (cap - y.partLen)).bytes).ok = true) :
    RecvRounds x script (recvRound host now y (recvMsg left (cap - y.partLen)).bytes).sock
      (recvMsg left (cap - y.partLen)).rest

variable {host cap now} {x : SocketSet} {script : List RecvResult} {e : RecvEnding}

/-! ## One round -/

/-- The results of `recv_msg`. -/
theorem recvMsg_nret (script : List RecvResult) (n : ℕ) :
    (recvMsg script n).nret = -1 ∨ (recvMsg script n).nret = 0 ∨ (recvMsg script n).nret = 1 ∨
      (recvMsg script n).nret = 2 := by
  induction script, n using recvMsg.induct with
  | case1 | case2 | case4 | case5 | case6 => simp [recvMsg]
  | case3 r n ih => simpa only [recvMsg] using ih
  | case7 b bs r n hle ih =>
    rw [recvMsg, if_pos hle]
    exact ih
  | case8 b bs r n hgt =>
    rw [recvMsg, if_neg hgt]
    simp

/-- It stores no more than it has room for. -/
theorem recvMsg_length (script : List RecvResult) (n : ℕ) :
    (recvMsg script n).bytes.length ≤ n := by
  induction script, n using recvMsg.induct with
  | case1 | case2 | case4 | case5 | case6 => simp [recvMsg]
  | case3 r n ih => simpa only [recvMsg] using ih
  | case7 b bs r n hle ih =>
    rw [recvMsg, if_pos hle]
    simp only [List.length_append]
    omega
  | case8 b bs r n hgt =>
    rw [recvMsg, if_neg hgt]
    simp only [List.length_take]
    omega

/-- A call of `recv_msg` takes something off the script, where it has room. -/
theorem recvMsg_weight (script : List RecvResult) (n : ℕ) :
    scriptWeight (recvMsg script n).rest ≤ scriptWeight script ∧
      (0 < n → (recvMsg script n).nret = 2 →
        scriptWeight (recvMsg script n).rest < scriptWeight script) := by
  induction script, n using recvMsg.induct with
  | case1 script => simp [recvMsg]
  | case2 | case4 | case5 | case6 => simp [recvMsg, scriptWeight]
  | case3 r n ih =>
    simp only [recvMsg, scriptWeight]
    exact ⟨by omega, fun hn h2 => by have := ih.2 hn h2; omega⟩
  | case7 b bs r n hle ih =>
    rw [recvMsg, if_pos hle]
    simp only [scriptWeight, List.length_cons] at ih ⊢
    exact ⟨by omega, fun _ _ => by omega⟩
  | case8 b bs r n hgt =>
    rw [recvMsg, if_neg hgt]
    have hlen : ((b :: bs).drop (n + 1)).length = bs.length - n := by
      rw [List.length_drop, List.length_cons]
      omega
    simp only [List.length_cons] at hgt
    simp only [scriptWeight, hlen, List.length_cons]
    exact ⟨by omega, fun _ _ => by omega⟩

/-- The loop, round by round. -/
theorem recvLoop_succ (fuel : ℕ) (x : SocketSet) (script : List RecvResult) :
    recvLoop host cap now (fuel + 1) x script =
      if (recvMsg script (cap - x.partLen)).nret < 0 then
        ⟨x, [], .error, (recvMsg script (cap - x.partLen)).rest⟩
      else
        let p := recvRound host now x (recvMsg script (cap - x.partLen)).bytes
        if (recvMsg script (cap - x.partLen)).nret = 0 ∨ p.ok = false then
          ⟨p.sock, p.msgs, if p.ok then .closed else .rejected,
            (recvMsg script (cap - x.partLen)).rest⟩
        else if (recvMsg script (cap - x.partLen)).nret = 1 then
          ⟨p.sock, p.msgs, .again, (recvMsg script (cap - x.partLen)).rest⟩
        else
          let o := recvLoop host cap now fuel p.sock (recvMsg script (cap - x.partLen)).rest
          { o with msgs := p.msgs ++ o.msgs } := rfl

/-! ## The whole loop -/

/-- A round without room reads nothing and changes nothing. -/
theorem recvRound_of_full (h : cap - x.partLen = 0) :
    recvRound host now x (recvMsg script (cap - x.partLen)).bytes =
      ⟨true, { x with refreshTime := now }, []⟩ := by
  rw [h]
  simp [recvMsg, recvRound]

/-- **A loop that ends has room to read.** -/
theorem RecvEnds.room (h : RecvEnds host cap now e x script) : 0 < cap - x.partLen := by
  have hfull : ∀ script, (recvMsg script 0).nret = 2 := fun script => by simp [recvMsg]
  by_contra h0
  have hroom : ∀ {x : SocketSet}, ¬ 0 < cap - x.partLen → cap - x.partLen = 0 := by
    intro x h0
    omega
  induction h with
  | error hfail =>
    rw [hroom h0, hfull] at hfail
    omega
  | rejected hread hno =>
    rw [recvRound_of_full (hroom h0)] at hno
    cases hno
  | closed hread | again hread =>
    rw [hroom h0, hfull] at hread
    omega
  | more hread hok hrest ih =>
    rw [recvRound_of_full (hroom h0)] at ih
    exact ih h0

/-- **The loop ends as `RecvEnds` says**, where the fuel lasts. -/
theorem RecvEnds.ending (h : RecvEnds host cap now e x script) {fuel : ℕ}
    (hfuel : scriptWeight script < fuel) : (recvLoop host cap now fuel x script).ending = e := by
  induction h generalizing fuel with
  | error hfail =>
    obtain ⟨fuel, rfl⟩ := Nat.exists_eq_succ_of_ne_zero (Nat.ne_of_gt (Nat.zero_lt_of_lt hfuel))
    rw [recvLoop_succ, if_pos hfail]
  | rejected hread hno =>
    obtain ⟨fuel, rfl⟩ := Nat.exists_eq_succ_of_ne_zero (Nat.ne_of_gt (Nat.zero_lt_of_lt hfuel))
    rw [recvLoop_succ, if_neg (by omega)]
    simp only
    rw [if_pos (.inr hno)]
    simp [hno]
  | closed hread hok =>
    obtain ⟨fuel, rfl⟩ := Nat.exists_eq_succ_of_ne_zero (Nat.ne_of_gt (Nat.zero_lt_of_lt hfuel))
    rw [recvLoop_succ, if_neg (by omega)]
    simp only
    rw [if_pos (.inl hread)]
    simp [hok]
  | again hread hok =>
    obtain ⟨fuel, rfl⟩ := Nat.exists_eq_succ_of_ne_zero (Nat.ne_of_gt (Nat.zero_lt_of_lt hfuel))
    rw [recvLoop_succ, if_neg (by omega)]
    simp only
    rw [if_neg (by simp [hread, hok]), if_pos hread]
  | @more e x script hread hok hrest ih =>
    have hroom : 0 < cap - x.partLen := (RecvEnds.more hread hok hrest).room
    have hweight := (recvMsg_weight script (cap - x.partLen)).2 hroom hread
    obtain ⟨fuel, rfl⟩ := Nat.exists_eq_succ_of_ne_zero (Nat.ne_of_gt (Nat.zero_lt_of_lt hfuel))
    rw [recvLoop_succ, if_neg (by omega)]
    simp only
    rw [if_neg (by simp [hread, hok]), if_neg (by omega)]
    exact ih (by omega)

/-- **And it says how the loop ended**, but for a loop that read nothing
more. -/
theorem recvEnds_of_ending {fuel : ℕ} (h : (recvLoop host cap now fuel x script).ending = e)
    (he : e ≠ .again) : RecvEnds host cap now e x script := by
  induction fuel generalizing x script with
  | zero => exact absurd h.symm he
  | succ fuel ih =>
    rw [recvLoop_succ] at h
    by_cases hfail : (recvMsg script (cap - x.partLen)).nret < 0
    · rw [if_pos hfail] at h
      exact h ▸ .error hfail
    · rw [if_neg hfail] at h
      simp only at h
      have hread : 0 ≤ (recvMsg script (cap - x.partLen)).nret := by omega
      rcases hok : (recvRound host now x (recvMsg script (cap - x.partLen)).bytes).ok with _ | _
      · -- the parser refused what was read
        rw [if_pos (.inr hok), hok] at h
        exact h ▸ .rejected hread hok
      · by_cases h0 : (recvMsg script (cap - x.partLen)).nret = 0
        · rw [if_pos (.inl h0), hok] at h
          exact h ▸ .closed h0 hok
        · rw [if_neg (by simp [h0, hok])] at h
          by_cases h1 : (recvMsg script (cap - x.partLen)).nret = 1
          · rw [if_pos h1] at h
            exact absurd h.symm he
          · rw [if_neg h1] at h
            have h2 : (recvMsg script (cap - x.partLen)).nret = 2 := by
              have hnret := recvMsg_nret script (cap - x.partLen)
              omega
            exact .more h2 hok (ih h)

/-- **A message of the loop is one of a round**, which had bytes to parse. -/
theorem RecvRounds.round_of_mem {y : SocketSet} {left : List RecvResult}
    (h : RecvRounds host cap now x script y left) {fuel : ℕ} {d : NetData}
    (hd : d ∈ (recvLoop host cap now fuel y left).msgs) :
    ∃ y left, RecvRounds host cap now x script y left ∧
      d ∈ (recvRound host now y (recvMsg left (cap - y.partLen)).bytes).msgs := by
  induction fuel generalizing y left with
  | zero => cases hd
  | succ fuel ih =>
    rw [recvLoop_succ] at hd
    simp only at hd
    split at hd
    · cases hd
    · rename_i hfail
      split at hd
      · exact ⟨y, left, h, hd⟩
      · rename_i hgo
        rw [not_or, Bool.not_eq_false] at hgo
        split at hd
        · exact ⟨y, left, h, hd⟩
        · rename_i hagain
          rcases List.mem_append.mp hd with hd | hd
          · exact ⟨y, left, h, hd⟩
          · have hread : (recvMsg left (cap - y.partLen)).nret = 2 := by
              have hnret := recvMsg_nret left (cap - y.partLen)
              omega
            exact ih (.more h hread hgo.2) hd

/-- **How a call of `doRecvMessage` ends.** -/
theorem recvMessage_ending_iff (he : e ≠ .again) :
    (recvMessage host cap now x script).ending = e ↔ RecvEnds host cap now e x script :=
  ⟨fun h => recvEnds_of_ending h he, fun h => h.ending (Nat.lt_succ_self _)⟩

/-! ## Answers that end the loop -/

/-- The loop of `recv_msg` goes on behind this answer. -/
def RecvResult.goesOn : RecvResult → Bool
  | .data bs => bs ≠ []
  | .eintr => true
  | .eagain | .error => false

/-- There is an answer that ends the loop, and more behind it. -/
inductive EndsInside : List RecvResult → Prop
  | here {r : RecvResult} {script : List RecvResult} (hends : r.goesOn = false)
      (hmore : script ≠ []) : EndsInside (r :: script)
  | later {r : RecvResult} {script : List RecvResult} (h : EndsInside script) :
    EndsInside (r :: script)

theorem EndsInside.ne_nil (h : EndsInside script) : script ≠ [] := by
  cases h <;> exact List.cons_ne_nil _ _

theorem endsInside_of_mem {r : RecvResult} {answers rest : List RecvResult} (h : r ∈ answers)
    (hends : r.goesOn = false) (hrest : rest ≠ []) : EndsInside (answers ++ rest) := by
  induction answers with
  | nil => cases h
  | cons x xs ih =>
    rcases List.mem_cons.mp h with rfl | h
    · exact .here hends (List.append_ne_nil_of_right_ne_nil _ hrest)
    · exact .later (ih h)

/-- Such an answer ends `recv_msg`, or is left to the next call. -/
theorem recvMsg_endsInside (h : EndsInside script) (n : ℕ) :
    (recvMsg script n).rest ≠ [] ∧
      ((recvMsg script n).nret = 2 → EndsInside (recvMsg script n).rest) := by
  induction script, n using recvMsg.induct with
  | case1 script =>
    rw [recvMsg]
    exact ⟨h.ne_nil, fun _ => h⟩
  | case2 => cases h
  | case3 r n ih =>
    cases h with
    | here hends => cases hends
    | later h => exact ih h
  | case4 r n | case5 r n | case6 r n =>
    refine ⟨?_, fun hread => by simp [recvMsg] at hread⟩
    cases h with
    | here _ hmore => exact hmore
    | later h => exact h.ne_nil
  | case7 b bs r n hle ih =>
    rw [recvMsg, if_pos hle]
    cases h with
    | here hends => simp [RecvResult.goesOn] at hends
    | later h => exact ih h
  | case8 b bs r n hgt =>
    rw [recvMsg, if_neg hgt]
    refine ⟨List.cons_ne_nil _ _, fun _ => ?_⟩
    cases h with
    | here hends => simp [RecvResult.goesOn] at hends
    | later h => exact .later h

/-- **An answer that ends the loop leaves what is behind it.** -/
theorem recvLoop_endsInside (h : EndsInside script) (fuel : ℕ) (x : SocketSet) :
    (recvLoop host cap now fuel x script).rest ≠ [] := by
  induction fuel generalizing x script with
  | zero => exact h.ne_nil
  | succ fuel ih =>
    obtain ⟨hrest, hgo⟩ := recvMsg_endsInside h (cap - x.partLen)
    rw [recvLoop_succ]
    split
    · exact hrest
    · simp only
      split
      · exact hrest
      · split
        · exact hrest
        · rename_i hstop hagain
          have hread : (recvMsg script (cap - x.partLen)).nret = 2 := by
            have hnret := recvMsg_nret script (cap - x.partLen)
            rw [not_or] at hstop
            omega
          exact ih (hgo hread) _

/-! ## A peer that keeps the loop going -/

/-- **Frames that fill the buffer keep the loop going**: where each answer is
such a piece, the loop takes them all, and the last answer as well. -/
theorem recvLoop_full {fs : List (List UInt8)} (hpos : 0 < cap)
    (hframes : ∀ f ∈ fs, netFraming.verdict f = .frame f.length) (hfull : fs.flatten.length = cap)
    (n : ℕ) {fuel : ℕ} (hfuel : n < fuel) (hx : x.partLen = 0) :
    (recvLoop host cap now fuel x (List.replicate n (.data fs.flatten) ++ [.error])).rest = [] := by
  obtain ⟨fuel, rfl⟩ := Nat.exists_eq_succ_of_ne_zero (Nat.ne_of_gt (Nat.zero_lt_of_lt hfuel))
  obtain ⟨m, rfl⟩ := Nat.exists_eq_succ_of_ne_zero (Nat.ne_of_gt hpos)
  have hne : fs.flatten ≠ [] := List.ne_nil_of_length_pos (hfull ▸ hpos)
  induction n generalizing fuel x with
  | zero =>
    rw [recvLoop_succ, hx]
    simp [recvMsg]
  | succ n ih =>
    obtain ⟨fuel, rfl⟩ := Nat.exists_eq_succ_of_ne_zero (show fuel ≠ 0 by omega)
    have hread : recvMsg (.data fs.flatten :: (List.replicate n (.data fs.flatten) ++ [.error]))
        (m + 1) = ⟨fs.flatten, 2, List.replicate n (.data fs.flatten) ++ [.error]⟩ := by
      obtain ⟨b, bs, hbs⟩ := List.exists_cons_of_ne_nil hne
      rw [hbs] at hfull ⊢
      rw [recvMsg, if_pos (by omega), hfull, Nat.sub_self, recvMsg]
      simp only [List.append_nil]
    have hround : recvRound host now x fs.flatten =
        ⟨true, { x with refreshTime := now, partLen := 0 },
          fs.map (NetData.ofSocket { x with refreshTime := now, partLen := 0 })⟩ := by
      rw [recvRound, if_pos (hfull ▸ hpos), hx, List.take_zero, List.nil_append,
        parsePacketToRecvQueue_eq hne, Framing.split_of_frames hframes]
      rfl
    rw [recvLoop_succ, List.replicate_succ, List.cons_append, hx, Nat.sub_zero, hread]
    simp only [hround]
    exact ih rfl _ (Nat.lt_of_succ_lt_succ hfuel)

end Network

end EupuServer
