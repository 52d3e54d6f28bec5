import EupuServer.Network.RecvMemory
/-!
# What a call takes off the wire

A call of `doRecvMessage` takes bytes from the front of what its `recv`
calls have for it. The frames it appends and the tail it keeps are these
bytes behind the tail it had, where no round loses the tail of its buffer
(`recvMessage_takes`). This holds for every ending: where `recv` fails, the
bytes of the last round are taken and no frame is made of them.
-/

namespace EupuServer

namespace Network

open Bytes Protocol

/-- The bytes the successive `recv` calls have, all of them. -/
def scriptBytes (script : List RecvResult) : List UInt8 :=
  script.flatMap fun r =>
    match r with
    | .data bs => bs
    | _ => []

/-- What of them is gone once only `rest` is left. -/
def takenOf (script rest : List RecvResult) : List UInt8 :=
  (scriptBytes script).take ((scriptBytes script).length - (scriptBytes rest).length)

/-- **No round loses its tail**: what is saved of a buffer is what the parser
left of it. -/
def KeepsTails (cap : ℕ) : ℕ → List UInt8 → List RecvResult → Prop
  | 0, _, _ => True
  | fuel + 1, p, script =>
    let r := recvMsg script (cap - p.length)
    let c := netFraming.split (p ++ r.bytes)
    c.rejected = true ∨
      savedTail (p ++ r.bytes) c.rest = c.rest ∧ (r.nret = 2 → KeepsTails cap fuel c.rest r.rest)

instance decidableKeepsTails (cap : ℕ) : ∀ fuel p script, Decidable (KeepsTails cap fuel p script)
  | 0, _, _ => .isTrue trivial
  | fuel + 1, p, script =>
    haveI := decidableKeepsTails cap fuel
      (netFraming.split (p ++ (recvMsg script (cap - p.length)).bytes)).rest
      (recvMsg script (cap - p.length)).rest
    inferInstanceAs (Decidable (_ ∨ _ ∧ (_ → _)))

variable {host : Host} {cap : ℕ} {now : ℤ} {script rest : List RecvResult} {x : SocketSet}

/-- What one `recv_msg` stores is what it takes. -/
theorem recvMsg_takes (script : List RecvResult) (n : ℕ) :
    scriptBytes script = (recvMsg script n).bytes ++ scriptBytes (recvMsg script n).rest := by
  induction script, n using recvMsg.induct with
  | case1 | case2 | case4 | case5 | case6 => simp [recvMsg, scriptBytes]
  | case3 r n ih => simpa only [recvMsg, scriptBytes, List.flatMap_cons, List.nil_append] using ih
  | case7 b bs r n hle ih =>
    rw [recvMsg, if_pos hle]
    simp only [List.append_assoc]
    rw [← ih]
    rfl
  | case8 b bs r n hgt =>
    rw [recvMsg, if_neg hgt]
    simp only [scriptBytes, List.flatMap_cons]
    rw [← List.append_assoc, List.take_append_drop]

/-- What is gone, where what is left is known. -/
theorem takenOf_eq {bs : List UInt8} (h : scriptBytes script = bs ++ scriptBytes rest) :
    takenOf script rest = bs := by
  rw [takenOf, h, List.length_append, Nat.add_sub_cancel, List.take_left]

/-- **A frame that was cut off is a frame by itself.** -/
theorem frame_alone {xs f : List UInt8} (h : f ∈ (netFraming.split xs).frames) :
    netFraming.verdict f = .frame f.length := by
  obtain ⟨k, n, hverdict, rfl⟩ := Framing.verdict_of_mem_frames h
  obtain ⟨hsize, hmin, hmax, hle⟩ := frame_range hverdict
  have hlen : ((xs.drop k).take n).length = n := List.length_take_of_le hle
  have hfront : ((xs.drop k).take n).take 2 = (xs.drop k).take 2 := by
    rw [List.take_take, Nat.min_eq_left]
    unfold netHeadSize at hmin
    omega
  rw [verdict_of_long (by omega), hfront, hsize, if_neg (by omega), if_pos hlen.ge, hlen]

/-- The tail the connection holds. -/
def SocketSet.tail (x : SocketSet) : List UInt8 := x.partBuf.take x.partLen

variable (host now) in
/-- **The rounds of a call.** Frames and tail are the bytes taken behind the
tail that was there; where the connection is closed, the frames come first. -/
theorem recvLoop_takes (hcap : maxSendSize ≤ cap) {fuel : ℕ} (hfuel : scriptWeight script < fuel)
    (hx : x.PartFits) (hkeep : KeepsTails cap fuel x.tail script) :
    ∃ (o : RecvOutcome) (frames : List (List UInt8)) (bs : List UInt8),
      recvLoop host cap now fuel x script = o ∧
      scriptBytes script = bs ++ scriptBytes o.rest ∧
      o.msgs = frames.map (NetData.ofSocket x) ∧
      (∀ f ∈ frames, netFraming.verdict f = .frame f.length) ∧
      frames.flatten <+: x.tail ++ bs ∧
      (o.ending = .again → frames.flatten ++ o.sock.tail = x.tail ++ bs) := by
  induction fuel generalizing x script with
  | zero => omega
  | succ fuel ih =>
    have htail : x.tail.length = x.partLen := hx.length_part
    have htake := recvMsg_takes script (cap - x.partLen)
    have hroom : 0 < cap - x.partLen := by
      have := hx.lt
      omega
    rw [KeepsTails, htail] at hkeep
    have hnow : SocketSet.PartFits { x with refreshTime := now } := hx.of_eq rfl rfl
    obtain ⟨po, hpo, hok, hmsgs, hsock⟩ := parse_spec host hx.pending hnow.holds
      (recvMsg script (cap - x.partLen)).bytes
    change recvRound host now x (recvMsg script (cap - x.partLen)).bytes = po at hpo
    change po.ok = !(netFraming.split (x.tail ++ _)).rejected at hok
    have hmsgs : po.msgs = (netFraming.split
        (x.tail ++ (recvMsg script (cap - x.partLen)).bytes)).frames.map (NetData.ofSocket x) :=
      hmsgs
    have hflat := Framing.split_flatten (F := netFraming)
      (x.tail ++ (recvMsg script (cap - x.partLen)).bytes)
    have hframes : ∀ f ∈ (netFraming.split
        (x.tail ++ (recvMsg script (cap - x.partLen)).bytes)).frames,
        netFraming.verdict f = .frame f.length := fun f hf => frame_alone hf
    rw [recvLoop_succ, hpo]
    split
    · -- `recv` failed: nothing is parsed
      exact ⟨_, [], _, rfl, htake, rfl, by simp, List.nil_prefix, by simp⟩
    · rename_i hnonneg
      simp only
      have hfront : (netFraming.split
          (x.tail ++ (recvMsg script (cap - x.partLen)).bytes)).frames.flatten <+:
          x.tail ++ (recvMsg script (cap - x.partLen)).bytes := ⟨_, hflat⟩
      split
      · refine ⟨_, _, _, rfl, htake, hmsgs, hframes, hfront, ?_⟩
        cases po.ok <;> simp
      · rename_i hgo
        rw [not_or, Bool.not_eq_false] at hgo
        rw [hgo.2, eq_comm, Bool.not_eq_true_eq_eq_false] at hok
        obtain ⟨hsaved, hmore⟩ := hkeep.resolve_left (by rw [hok]; simp)
        have hholds := hsock hgo.2
        have htail' : po.sock.tail = (netFraming.split
            (x.tail ++ (recvMsg script (cap - x.partLen)).bytes)).rest := by
          have hpart := hholds.part
          rw [SocketSet.tail, hpart]
          exact hsaved
        split
        · refine ⟨_, _, _, rfl, htake, hmsgs, hframes, hfront, fun _ => ?_⟩
          rw [htail', hflat]
        · -- the buffer was filled, and the loop reads on
          rename_i hnot
          have hnret : (recvMsg script (cap - x.partLen)).nret = 2 := by
            rcases recvMsg_nret script (cap - x.partLen) with h | h | h | h
            · omega
            · exact absurd h hgo.1
            · exact absurd h hnot
            · exact h
          have hfits : po.sock.PartFits :=
            .of_holds hholds (verdict_savedTail (Framing.verdict_rest hok))
          have hless : scriptWeight (recvMsg script (cap - x.partLen)).rest < fuel := by
            have := (recvMsg_weight script (cap - x.partLen)).2 hroom hnret
            omega
          obtain ⟨o, frames, bs, ho, hbs, homsgs, hofr, hopre, hend⟩ :=
            ih (x := po.sock) hless hfits
              (by rw [htail']; exact hmore hnret)
          rw [ho]
          have hsame : NetData.ofSocket po.sock = NetData.ofSocket x := hholds.same
          refine ⟨_, (netFraming.split
            (x.tail ++ (recvMsg script (cap - x.partLen)).bytes)).frames ++ frames,
            (recvMsg script (cap - x.partLen)).bytes ++ bs, rfl, ?_, ?_, ?_, ?_, ?_⟩
          · rw [htake, hbs, List.append_assoc]
          · simp only
            rw [hmsgs, homsgs, hsame, List.map_append]
          · intro f hf
            exact (List.mem_append.mp hf).elim (hframes f) (hofr f)
          · have hsplit : x.tail ++ ((recvMsg script (cap - x.partLen)).bytes ++ bs) =
                (netFraming.split
                  (x.tail ++ (recvMsg script (cap - x.partLen)).bytes)).frames.flatten ++
                  (po.sock.tail ++ bs) := by
              rw [htail', ← List.append_assoc, ← List.append_assoc, hflat]
            rw [List.flatten_append, hsplit]
            exact (List.prefix_append_right_inj _).mpr hopre
          · intro he
            rw [List.flatten_append, List.append_assoc, hend he, htail', ← List.append_assoc, hflat,
              List.append_assoc]

variable (host now) in
/-- **A call of `doRecvMessage`**, with what it takes. -/
theorem recvMessage_takes (hcap : maxSendSize ≤ cap) (hx : x.PartFits)
    (hkeep : KeepsTails cap (scriptWeight script + 1) x.tail script) :
    ∃ (o : RecvOutcome) (frames : List (List UInt8)), recvMessage host cap now x script = o ∧
      o.msgs = frames.map (NetData.ofSocket x) ∧
      (∀ f ∈ frames, netFraming.verdict f = .frame f.length) ∧
      frames.flatten <+: x.tail ++ takenOf script o.rest ∧
      (o.ending = .again → frames.flatten ++ o.sock.tail = x.tail ++ takenOf script o.rest) := by
  obtain ⟨o, frames, bs, ho, hbs, hmsgs, hframes, hfront, hend⟩ :=
    recvLoop_takes host now hcap (Nat.lt_succ_self _) hx hkeep
  refine ⟨o, frames, ho, hmsgs, hframes, ?_, ?_⟩ <;> rw [takenOf_eq hbs]
  · exact hfront
  · exact hend

end Network

end EupuServer
