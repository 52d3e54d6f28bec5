import EupuServer.Network.Receive
/-!
# Reassembly

What the receive path makes of a stream that arrives in pieces. The
connection holds the tail of what came before (`SocketSet.Holds`), so the
calls of `doRecvMessage` amount to a run over tails alone (`streamRun`).
That run is compared with the reference framing of the whole stream. The
two agree exactly where no short tail is lost (`TailsKept`): behind
complete frames, the parser saves the front of its buffer in place of a
tail shorter than a header.
-/

namespace EupuServer

namespace Network

open Bytes Protocol

/-! ## The reference framing -/

/-- The length at the front of a stream, judged once its two bytes are
there. -/
def lengthHeader (xs : List UInt8) : Option (Option ℕ) :=
  if xs.length < 2 then none
  else if ofBE (xs.take 2) < netHeadSize ∨ ofBE (xs.take 2) > maxSendSize then some none
  else some (some (ofBE (xs.take 2)))

theorem lengthHeader_append (xs ys : List UInt8) (v : Option ℕ) (h : lengthHeader xs = some v) :
    lengthHeader (xs ++ ys) = some v := by
  unfold lengthHeader at h ⊢
  by_cases hlen : xs.length < 2
  · rw [if_pos hlen] at h
    cases h
  · have htake : (xs ++ ys).take 2 = xs.take 2 := List.take_append_of_le_length (by omega)
    have hlen' : ¬ (xs ++ ys).length < 2 := by
      rw [List.length_append]
      omega
    rw [if_neg hlen] at h
    rw [if_neg hlen', htake]
    exact h

theorem lengthHeader_pos (xs : List UInt8) (n : ℕ) (h : lengthHeader xs = some (some n)) :
    0 < n := by
  unfold lengthHeader at h
  split at h
  · cases h
  · split at h
    · cases h
    · rename_i hrange
      injection h with h
      injection h with h
      unfold netHeadSize at hrange
      omega

/-- **The reference framing**: read the length, reject it out of range, and
take as many bytes once they have arrived. -/
def lengthFraming : Framing UInt8 where
  header := lengthHeader
  header_append := lengthHeader_append
  header_nil := rfl
  pos := lengthHeader_pos

/-! ## The run over tails -/

/-- One round of the receive path: how the buffer is cut, the tail that is
saved of it, whether nothing is read after it, and what is left to read. -/
structure Round where
  cut : Framing.Split UInt8
  tail : List UInt8
  last : Bool
  rest : List RecvResult
  deriving DecidableEq, Repr

/-- The round with the tail `p` in hand. -/
def round (cap : ℕ) (p : List UInt8) (script : List RecvResult) : Round :=
  let r := recvMsg script (cap - p.length)
  let c := netFraming.split (p ++ r.bytes)
  ⟨c, savedTail (p ++ r.bytes) c.rest, r.nret = 0 ∨ r.nret = 1 ∧ r.rest = [], r.rest⟩

/-- Rounds of the receive path, until the stream is rejected, ends, or
gives nothing more. The tail that is saved is the next round's. -/
def streamRounds (cap : ℕ) : ℕ → List UInt8 → List RecvResult → Framing.Split UInt8
  | 0, p, _ => ⟨[], p, false⟩
  | fuel + 1, p, script =>
    let r := round cap p script
    if r.cut.rejected ∨ r.last then r.cut
    else (streamRounds cap fuel r.tail r.rest).prepend r.cut.frames

/-- All rounds of a script. -/
def streamRun (cap : ℕ) (p : List UInt8) (script : List RecvResult) : Framing.Split UInt8 :=
  streamRounds cap (scriptWeight script + 1) p script

variable {cap : ℕ} {p : List UInt8} {script : List RecvResult} {s s₀ : SocketSet}

/-- The tail in hand leaves room in the buffer. -/
theorem room_of_pending (hcap : maxSendSize ≤ cap) (hp : netFraming.verdict p = .pending) :
    0 < cap - p.length := by
  have := length_lt_of_pending hp
  omega

/-- **One round**: the tail that is saved is pending again, and a run that
goes on has less left to read. -/
theorem round_spec (hcap : maxSendSize ≤ cap) (herr : NoError script)
    (hp : netFraming.verdict p = .pending) :
    ((round cap p script).cut.rejected = false →
        netFraming.verdict (round cap p script).tail = .pending) ∧
      NoError (round cap p script).rest ∧
      ((round cap p script).last = false →
        scriptWeight (round cap p script).rest < scriptWeight script) := by
  obtain ⟨-, hrest, hw, -, hret⟩ := recvMsg_spec herr (room_of_pending hcap hp)
  refine ⟨fun hrej => verdict_savedTail (Framing.verdict_rest hrej), hrest, ?_⟩
  intro hgo
  simp only [round, decide_eq_false_iff_not] at hgo ⊢
  rcases hret with ⟨-, -, hlt⟩ | ⟨h1, hlt⟩ | h0
  · exact hlt
  · refine hlt ?_
    rintro rfl
    rw [scriptWeight, Nat.le_zero] at hw
    have hnil : (recvMsg [] (cap - p.length)).rest = [] := by
      rcases hr : (recvMsg [] (cap - p.length)).rest with _ | ⟨x, xs⟩
      · rfl
      · rw [hr] at hw
        rcases x <;> simp only [scriptWeight] at hw <;> omega
    exact hgo (.inr ⟨h1, hnil⟩)
  · exact absurd (.inl h0) hgo

/-- What arrives after a round is what its script still gives. -/
theorem round_arrives (hcap : maxSendSize ≤ cap) (herr : NoError script)
    (hp : netFraming.verdict p = .pending) :
    ∃ bytes, (round cap p script).cut = netFraming.split (p ++ bytes) ∧
      (round cap p script).tail = savedTail (p ++ bytes) (round cap p script).cut.rest ∧
      arrives script = bytes ++
        if (round cap p script).last then [] else arrives (round cap p script).rest := by
  obtain ⟨-, -, -, harr, -⟩ := recvMsg_spec herr (room_of_pending hcap hp)
  refine ⟨_, rfl, rfl, ?_⟩
  simp only [round, decide_eq_true_eq]
  by_cases h0 : (recvMsg script (cap - p.length)).nret = 0
  · rw [if_pos h0] at harr
    rw [if_pos (.inl h0)]
    exact harr
  · rw [if_neg h0] at harr
    by_cases h1 : (recvMsg script (cap - p.length)).nret = 1 ∧
        (recvMsg script (cap - p.length)).rest = []
    · rw [h1.2] at harr
      rw [if_pos (.inr h1)]
      exact harr
    · rw [if_neg fun h => h.elim h0 h1]
      exact harr

/-- Enough rounds are enough. -/
theorem streamRounds_eq (hcap : maxSendSize ≤ cap) {fuel : ℕ} (hfuel : scriptWeight script < fuel)
    (herr : NoError script) (hp : netFraming.verdict p = .pending) :
    streamRounds cap fuel p script = streamRun cap p script := by
  induction hw : scriptWeight script using Nat.strongRecOn generalizing p script fuel with
  | ind w ih =>
    subst hw
    unfold streamRun
    match fuel, hfuel with
    | fuel + 1, hfuel =>
      obtain ⟨hpend, hrest, hlt⟩ := round_spec hcap herr hp
      rw [streamRounds, streamRounds]
      by_cases hstop : (round cap p script).cut.rejected ∨ (round cap p script).last
      · rw [if_pos hstop, if_pos hstop]
      · rw [if_neg hstop, if_neg hstop]
        rw [not_or, Bool.not_eq_true, Bool.not_eq_true] at hstop
        have hlt := hlt hstop.2
        rw [ih _ hlt (by omega) hrest (hpend hstop.1) rfl,
          ih _ hlt hlt hrest (hpend hstop.1) rfl]

/-- **The run, one round at a time.** -/
theorem streamRun_eq (hcap : maxSendSize ≤ cap) (herr : NoError script)
    (hp : netFraming.verdict p = .pending) :
    streamRun cap p script =
      if (round cap p script).cut.rejected ∨ (round cap p script).last then
        (round cap p script).cut
      else
        (streamRun cap (round cap p script).tail (round cap p script).rest).prepend
          (round cap p script).cut.frames := by
  obtain ⟨hpend, hrest, hlt⟩ := round_spec hcap herr hp
  conv_lhs => rw [streamRun, streamRounds]
  by_cases hstop : (round cap p script).cut.rejected ∨ (round cap p script).last
  · rw [if_pos hstop, if_pos hstop]
  · rw [if_neg hstop, if_neg hstop]
    rw [not_or, Bool.not_eq_true, Bool.not_eq_true] at hstop
    rw [streamRounds_eq hcap (hlt hstop.2) hrest (hpend hstop.1)]

/-! ## The connection over a run -/

/-- **The connection holds a tail**: the front of `part_buf` is `p`, and
messages are still addressed as by `s₀`. -/
structure SocketSet.Holds (s s₀ : SocketSet) (p : List UInt8) : Prop where
  same : NetData.ofSocket s = NetData.ofSocket s₀
  room : s.partBuf.length = maxSendSize
  len : s.partLen = p.length
  part : s.partBuf.take s.partLen = p

/-- Keeping the tail of a buffer is holding what `savedTail` says. -/
theorem SocketSet.keep_holds {buf rest : List UInt8}
    (hsame : NetData.ofSocket s = NetData.ofSocket s₀)
    (hroom : s.partBuf.length = maxSendSize) (hlen : s.partLen = 0)
    (hle : rest.length ≤ buf.length) (hmax : rest.length ≤ maxSendSize) :
    (s.keep buf rest).Holds s₀ (savedTail buf rest) := by
  have hsaved : (savedTail buf rest).length = rest.length := length_savedTail hle
  unfold SocketSet.keep
  by_cases hne : rest = []
  · subst hne
    rw [if_pos rfl]
    refine ⟨hsame, hroom, by rw [hlen, hsaved]; rfl, ?_⟩
    simp [hlen, savedTail, netHeadSize]
  · rw [if_neg hne]
    have htake : (savedTail buf rest).take rest.length = savedTail buf rest :=
      List.take_of_length_le (by omega)
    refine ⟨hsame, ?_, hsaved.symm, ?_⟩
    · simp only [SocketSet.savePart, htake]
      rw [length_blit (by rw [hsaved, hroom]; omega), hroom]
    · simp only [SocketSet.savePart, htake]
      exact take_blit_zero hsaved.symm

variable (host : Host) (now : ℤ)

/-- **The parse of a round** appends its frames, refuses what it rejects,
and keeps its tail. -/
theorem parse_spec (hp : netFraming.verdict p = .pending) (hs : s.Holds s₀ p)
    (bytes : List UInt8) :
    ∃ o : ParseOut,
      (if bytes.length > 0 then
        parsePacketToRecvQueue host { s with partLen := 0 } (s.partBuf.take s.partLen ++ bytes)
      else ⟨true, s, []⟩) = o ∧
      o.ok = !(netFraming.split (p ++ bytes)).rejected ∧
      o.msgs = (netFraming.split (p ++ bytes)).frames.map (NetData.ofSocket s₀) ∧
      (o.ok = true →
        o.sock.Holds s₀ (savedTail (p ++ bytes) (netFraming.split (p ++ bytes)).rest)) := by
  refine ⟨_, rfl, ?_⟩
  by_cases hb : bytes.length > 0
  · have hne : p ++ bytes ≠ [] := by
      intro h
      rw [(List.append_eq_nil_iff.mp h).2] at hb
      exact absurd hb (by simp)
    rw [if_pos hb, hs.part, parsePacketToRecvQueue_eq hne]
    refine ⟨rfl, ?_, ?_⟩
    · exact congrArg (fun f => List.map f _) hs.same
    · intro hok
      have hrej : (netFraming.split (p ++ bytes)).rejected = false := by simpa using hok
      have hflat := congrArg List.length (Framing.split_flatten (F := netFraming) (p ++ bytes))
      rw [List.length_append] at hflat
      simp only [hrej, Bool.false_eq_true, if_false]
      exact SocketSet.keep_holds hs.same hs.room rfl (by omega)
        (length_lt_of_pending (Framing.verdict_rest hrej)).le
  · have hnil : bytes = [] := List.eq_nil_of_length_eq_zero (by omega)
    subst hnil
    rw [if_neg hb, List.append_nil, Framing.split_of_pending hp]
    refine ⟨rfl, rfl, fun _ => ?_⟩
    rw [savedTail_self]
    exact hs

/-- **A call of `doRecvMessage` is the rounds up to the next `EAGAIN`** of
the run over tails. -/
theorem recvLoop_spec (hcap : maxSendSize ≤ cap) {fuel : ℕ} (hfuel : scriptWeight script < fuel)
    (herr : NoError script) (hp : netFraming.verdict p = .pending) (hs : s.Holds s₀ p) :
    ∃ o frames, recvLoop host cap now fuel s script = o ∧
      o.msgs = frames.map (NetData.ofSocket s₀) ∧
      (o.ending = .rejected ∧ (∃ rest, streamRun cap p script = ⟨frames, rest, true⟩) ∨
        (o.ending = .closed ∨ o.ending = .again ∧ o.rest = []) ∧
          (∃ rest, streamRun cap p script = ⟨frames, rest, false⟩) ∨
        o.ending = .again ∧ o.rest ≠ [] ∧ NoError o.rest ∧
          scriptWeight o.rest < scriptWeight script ∧
          ∃ q, o.sock.Holds s₀ q ∧ netFraming.verdict q = .pending ∧
            streamRun cap p script = (streamRun cap q o.rest).prepend frames) := by
  -- from round to round, the connection holds the tail that the run starts from
  induction fuel generalizing s p script with
  | zero => omega
  | succ fuel ih =>
    obtain ⟨hpend, hrest, hlt⟩ := round_spec hcap herr hp
    obtain ⟨-, -, -, -, hret⟩ := recvMsg_spec herr (room_of_pending hcap hp)
    have hs' : SocketSet.Holds { s with refreshTime := now } s₀ p :=
      ⟨hs.same, hs.room, hs.len, hs.part⟩
    obtain ⟨po, hpo, hok, hmsgs, hsock⟩ :=
      parse_spec host hp hs' (recvMsg script (cap - p.length)).bytes
    have hrun := streamRun_eq hcap herr hp
    have hnonneg : ¬ (recvMsg script (cap - p.length)).nret < 0 := by
      rcases hret with ⟨h, -⟩ | ⟨h, -⟩ | h <;> omega
    rw [recvLoop]
    simp only [hs.len] at hpo ⊢
    rw [if_neg hnonneg, hpo]
    change po.ok = !(round cap p script).cut.rejected at hok
    change po.msgs = (round cap p script).cut.frames.map _ at hmsgs
    change po.ok = true → po.sock.Holds s₀ (round cap p script).tail at hsock
    have hlast : (round cap p script).last = decide ((recvMsg script (cap - p.length)).nret = 0 ∨
        (recvMsg script (cap - p.length)).nret = 1 ∧ (round cap p script).rest = []) := rfl
    have hround : (recvMsg script (cap - p.length)).rest = (round cap p script).rest := rfl
    simp only [hround]
    rcases hrej : (round cap p script).cut.rejected with _ | _
    · rw [hrej, Bool.not_false] at hok
      by_cases h0 : (recvMsg script (cap - p.length)).nret = 0
      · -- the peer ended the stream
        rw [hlast, decide_eq_true (.inl h0), if_pos (.inr rfl)] at hrun
        rw [if_pos (.inl h0), hok, if_pos rfl]
        exact ⟨_, _, rfl, hmsgs, .inr (.inl ⟨.inl rfl, _, by rw [hrun, ← hrej]⟩)⟩
      · have hgo : ¬ ((recvMsg script (cap - p.length)).nret = 0 ∨ po.ok = false) := by
          simp [h0, hok]
        rw [if_neg hgo]
        by_cases h1 : (recvMsg script (cap - p.length)).nret = 1
        · -- the socket is drained: the call returns, and the next one goes on
          rw [if_pos h1]
          by_cases hnil : (round cap p script).rest = []
          · rw [hlast, decide_eq_true (.inr ⟨h1, hnil⟩), if_pos (.inr rfl)] at hrun
            exact ⟨_, _, rfl, hmsgs, .inr (.inl ⟨.inr ⟨rfl, hnil⟩, _, by rw [hrun, ← hrej]⟩)⟩
          · have hno : (round cap p script).last = false := by simp [hlast, h0, hnil]
            rw [hrej, hno, if_neg (by simp)] at hrun
            exact ⟨_, _, rfl, hmsgs, .inr (.inr ⟨rfl, hnil, hrest, hlt hno, _, hsock hok,
              hpend hrej, hrun⟩)⟩
        · -- the buffer was filled: the loop reads on
          have hno : (round cap p script).last = false := by simp [hlast, h0, h1]
          rw [hrej, hno, if_neg (by simp)] at hrun
          have hlt := hlt hno
          obtain ⟨o, frames, ho, homsgs, hend⟩ :=
            ih (s := po.sock) (by omega) hrest (hpend hrej) (hsock hok)
          rw [if_neg h1, ho]
          refine ⟨_, (round cap p script).cut.frames ++ frames, rfl, by simp [hmsgs, homsgs], ?_⟩
          rw [hrun]
          rcases hend with ⟨he, rest, hr⟩ | ⟨he, rest, hr⟩ | ⟨he, hne, hno, hw, q, hq, hqp, hr⟩
          · exact .inl ⟨he, rest, by rw [hr]; rfl⟩
          · exact .inr (.inl ⟨he, rest, by rw [hr]; rfl⟩)
          · exact .inr (.inr ⟨he, hne, hno, hw.trans hlt, q, hq, hqp,
              by rw [hr, Framing.Split.prepend_prepend]⟩)
    · -- the parser refuses the stream
      rw [hrej, Bool.not_true] at hok
      rw [hrej, if_pos (.inl rfl)] at hrun
      rw [if_pos (.inr hok), hok, if_neg (by simp)]
      exact ⟨_, _, rfl, hmsgs, .inl ⟨rfl, _, by rw [hrun, ← hrej]⟩⟩

/-- **All calls together are the run over tails.** -/
theorem recvCalls_spec (hcap : maxSendSize ≤ cap) {fuel : ℕ} (hfuel : scriptWeight script < fuel)
    (herr : NoError script) (hp : netFraming.verdict p = .pending) (hs : s.Holds s₀ p) :
    (recvCalls host cap now fuel s script).msgs =
        (streamRun cap p script).frames.map (NetData.ofSocket s₀) ∧
      ((recvCalls host cap now fuel s script).ending = .rejected ↔
        (streamRun cap p script).rejected = true) := by
  induction fuel generalizing s p script with
  | zero => omega
  | succ fuel ih =>
    obtain ⟨o, frames, ho, hmsgs, hend⟩ :=
      recvLoop_spec host now hcap (Nat.lt_succ_self _) herr hp hs
    rw [recvCalls, recvMessage, ho]
    simp only
    rcases hend with ⟨he, rest, hr⟩ | ⟨he, rest, hr⟩ | ⟨he, hne, hno, hw, q, hq, hqp, hr⟩
    · rw [if_neg (by simp [he]), hr]
      exact ⟨hmsgs, by simp [he]⟩
    · rw [if_neg (by rcases he with he | ⟨he, hn⟩ <;> simp [*]), hr]
      exact ⟨hmsgs, by rcases he with he | ⟨he, -⟩ <;> simp [he]⟩
    · obtain ⟨hm, hr'⟩ := ih (s := o.sock) (by omega) hno hqp hq
      rw [if_pos ⟨he, hne⟩, hr]
      exact ⟨by simp [hmsgs, hm], hr'⟩

/-! ## What the run makes of the stream -/

/-- **The first frame of a run** is that of the tail in hand and what
arrives. -/
theorem streamRun_first (hcap : maxSendSize ≤ cap) (herr : NoError script)
    (hp : netFraming.verdict p = .pending) :
    match netFraming.verdict (p ++ arrives script) with
    | .pending => (streamRun cap p script).frames = [] ∧
        (streamRun cap p script).rejected = false
    | .rejected => (streamRun cap p script).frames = [] ∧
        (streamRun cap p script).rejected = true
    | .frame n => (streamRun cap p script).frames.head? = some ((p ++ arrives script).take n) := by
  induction hw : scriptWeight script using Nat.strongRecOn generalizing p script with
  | ind w ih =>
    subst hw
    obtain ⟨hpend, hrest, hlt⟩ := round_spec hcap herr hp
    obtain ⟨bytes, hcut, htail, harr⟩ := round_arrives hcap herr hp
    have hrun := streamRun_eq hcap herr hp
    rcases hv : netFraming.verdict (p ++ bytes) with _ | _ | n
    · -- nothing is cut off: the tail is all that came so far
      rw [Framing.split_of_pending hv] at hcut
      rw [hcut, savedTail_self] at htail
      rw [hcut, htail] at hrun
      rcases hl : (round cap p script).last with _ | _
      · rw [hl, if_neg (by simp), Framing.Split.prepend_nil] at hrun
        rw [hl, if_neg (by simp)] at harr
        rw [htail, hcut] at hpend
        have hnext := ih _ (hlt hl) hrest (hpend rfl) rfl
        rw [List.append_assoc, ← harr] at hnext
        rw [hrun]
        exact hnext
      · rw [hl, if_pos rfl, List.append_nil] at harr
        rw [hl, if_pos (.inr rfl)] at hrun
        rw [harr, hv, hrun]
        exact ⟨rfl, rfl⟩
    · rw [Framing.split_of_rejected hv] at hcut
      rw [hcut, if_pos (.inl rfl)] at hrun
      rw [harr, ← List.append_assoc, Framing.verdict_append (by rw [hv]; simp), hv, hrun]
      exact ⟨rfl, rfl⟩
    · rw [Framing.split_of_frame hv] at hcut
      rw [harr, ← List.append_assoc, Framing.verdict_append (by rw [hv]; simp), hv, hrun]
      simp only
      rw [(Framing.take_of_verdict_frame hv _).1, hcut]
      split <;> rfl

/-! ## The two framings -/

variable {xs ys : List UInt8} {n : ℕ}

/-- Past the header, the two framings say the same. -/
theorem lengthFraming_of_long (h : ¬ xs.length < netHeadSize) :
    lengthFraming.verdict xs = netFraming.verdict xs := by
  have h2 : ¬ xs.length < 2 := by unfold netHeadSize at h; omega
  unfold Framing.verdict
  simp only [lengthFraming, netFraming, lengthHeader, frameHeader, if_neg h, if_neg h2]

/-- A frame is at least a header. -/
theorem le_of_lengthFraming_frame (h : lengthFraming.verdict xs = .frame n) :
    netHeadSize ≤ n ∧ n ≤ xs.length := by
  obtain ⟨hh, -, hle⟩ := Framing.verdict_frame h
  simp only [lengthFraming, lengthHeader] at hh
  split at hh
  · cases hh
  · split at hh
    · cases hh
    · rename_i hrange
      injection hh with hh
      injection hh with hh
      omega

/-- What the wire format settles, the reference framing settles so. -/
theorem lengthFraming_verdict (h : netFraming.verdict xs ≠ .pending) :
    lengthFraming.verdict xs = netFraming.verdict xs := by
  by_cases hlen : xs.length < netHeadSize
  · exact absurd (verdict_of_short hlen) h
  · exact lengthFraming_of_long hlen

/-- The reference framing cuts no frame off a pending tail. -/
theorem lengthFraming_of_pending (h : netFraming.verdict xs = .pending) :
    lengthFraming.verdict xs = .pending ∨ lengthFraming.verdict xs = .rejected := by
  rcases hv : lengthFraming.verdict xs with _ | _ | n
  · exact .inl rfl
  · exact .inr rfl
  · obtain ⟨hle, hlen⟩ := le_of_lengthFraming_frame hv
    rw [← lengthFraming_of_long (by omega), hv] at h
    cases h

/-- **The two cuts**: the same frames, and the reference framing may reject
the tail a header early. -/
theorem lengthFraming_split (xs : List UInt8) :
    (lengthFraming.split xs).frames = (netFraming.split xs).frames ∧
      ((lengthFraming.split xs).rejected = true ↔
        lengthFraming.verdict (netFraming.split xs).rest = .rejected) := by
  induction xs using Framing.split_induction (F := netFraming) with
  | pending xs hv =>
    rw [Framing.split_of_pending hv]
    rcases lengthFraming_of_pending hv with h | h
    · rw [Framing.split_of_pending h]
      simp [h]
    · rw [Framing.split_of_rejected h]
      simp [h]
  | rejected xs hv =>
    have h := lengthFraming_verdict (by rw [hv]; simp)
    rw [hv] at h
    rw [Framing.split_of_rejected hv, Framing.split_of_rejected h]
    simp [h]
  | frame xs n hv ih =>
    have h := lengthFraming_verdict (by rw [hv]; simp)
    rw [hv] at h
    rw [Framing.split_of_frame hv, Framing.split_of_frame h]
    refine ⟨?_, ih.2⟩
    rw [Framing.Split.prepend_frames, Framing.Split.prepend_frames, ih.1]

/-- What the wire format rejects, the reference framing rejects. -/
theorem lengthFraming_rejected (h : (netFraming.split xs).rejected = true) :
    (lengthFraming.split xs).rejected = true := by
  induction xs using Framing.split_induction (F := netFraming) with
  | pending xs hv =>
    rw [Framing.split_of_pending hv] at h
    cases h
  | rejected xs hv =>
    have hl := lengthFraming_verdict (by rw [hv]; simp)
    rw [Framing.split_of_rejected (hl.trans hv)]
  | frame xs n hv ih =>
    have hl := lengthFraming_verdict (by rw [hv]; simp)
    rw [Framing.split_of_frame hv] at h
    rw [Framing.split_of_frame (hl.trans hv)]
    exact ih h

/-! ## Where the receive path follows the reference -/

/-- A lost tail does no harm where no frame follows and the bytes saved in
its place are judged as it is: `q` is saved, `rest` was the tail, and `ys`
arrives after it. -/
def Harmless (q rest ys : List UInt8) : Prop :=
  lengthFraming.verdict (rest ++ ys) = netFraming.verdict (q ++ ys) ∧
    (netFraming.split (q ++ ys)).frames = []

instance (q rest ys : List UInt8) : Decidable (Harmless q rest ys) :=
  inferInstanceAs (Decidable (_ ∧ _))

/-- **No short tail is lost.** Round after round, what is saved is the tail
of the buffer, or its loss is harmless; and a stream that stops within a
header does not stop at a length that is out of range. -/
def TailsKeptFor (cap : ℕ) : ℕ → List UInt8 → List RecvResult → Prop
  | 0, _, _ => True
  | fuel + 1, p, script =>
    let r := round cap p script
    if r.cut.rejected then True
    else if r.last then lengthFraming.verdict r.cut.rest ≠ .rejected
    else if r.tail = r.cut.rest then TailsKeptFor cap fuel r.tail r.rest
    else Harmless r.tail r.cut.rest (arrives r.rest)

/-- The condition on a whole script. -/
def TailsKept (cap : ℕ) (p : List UInt8) (script : List RecvResult) : Prop :=
  TailsKeptFor cap (scriptWeight script + 1) p script

instance decidableTailsKeptFor : ∀ fuel p script, Decidable (TailsKeptFor cap fuel p script)
  | 0, _, _ => .isTrue trivial
  | fuel + 1, p, script =>
    haveI := decidableTailsKeptFor fuel (round cap p script).tail (round cap p script).rest
    inferInstanceAs (Decidable
      (if (round cap p script).cut.rejected then True
      else if (round cap p script).last then
        lengthFraming.verdict (round cap p script).cut.rest ≠ .rejected
      else if (round cap p script).tail = (round cap p script).cut.rest then
        TailsKeptFor cap fuel (round cap p script).tail (round cap p script).rest
      else Harmless (round cap p script).tail (round cap p script).cut.rest
        (arrives (round cap p script).rest)))

instance : Decidable (TailsKept cap p script) := decidableTailsKeptFor _ _ _

/-- The first frame cannot tell a lost tail from the tail. -/
theorem harmless_iff {q rest : List UInt8} {r : Framing.Split UInt8}
    (hr : match netFraming.verdict (q ++ ys) with
      | .pending => r.frames = [] ∧ r.rejected = false
      | .rejected => r.frames = [] ∧ r.rejected = true
      | .frame n => r.frames.head? = some ((q ++ ys).take n))
    (hlen : q.length = rest.length) (hshort : rest.length < netHeadSize) (hne : q ≠ rest) :
    r.frames = (lengthFraming.split (rest ++ ys)).frames ∧
        r.rejected = (lengthFraming.split (rest ++ ys)).rejected ↔ Harmless q rest ys := by
  unfold Harmless
  rcases hv : netFraming.verdict (q ++ ys) with _ | _ | n
  · rw [hv] at hr
    rw [hr.1, hr.2, Framing.split_of_pending hv]
    rcases hl : lengthFraming.verdict (rest ++ ys) with _ | _ | m
    · simp [Framing.split_of_pending hl]
    · simp [Framing.split_of_rejected hl]
    · simp [Framing.split_of_frame hl]
  · rw [hv] at hr
    rw [hr.1, hr.2, Framing.split_of_rejected hv]
    rcases hl : lengthFraming.verdict (rest ++ ys) with _ | _ | m
    · simp [Framing.split_of_pending hl]
    · simp [Framing.split_of_rejected hl]
    · simp [Framing.split_of_frame hl]
  · -- a frame cut from the wrong bytes is never the reference's
    rw [hv] at hr
    refine iff_of_false ?_ fun h => by simp [Framing.split_of_frame hv] at h
    rintro ⟨hframes, -⟩
    have hv' := lengthFraming_verdict (by rw [hv]; simp)
    rw [hv] at hv'
    obtain ⟨hn8, hn⟩ := le_of_lengthFraming_frame hv'
    rcases hl : lengthFraming.verdict (rest ++ ys) with _ | _ | m
    · rw [hframes, Framing.split_of_pending hl] at hr
      cases hr
    · rw [hframes, Framing.split_of_rejected hl] at hr
      cases hr
    · -- two frames that are equal begin with the same bytes, the tail among them
      obtain ⟨hm8, hm⟩ := le_of_lengthFraming_frame hl
      rw [hframes, Framing.split_of_frame hl] at hr
      have htake : (rest ++ ys).take m = (q ++ ys).take n := by simpa using hr
      refine hne ?_
      have hfront := congrArg (List.take rest.length) htake
      rw [List.take_take, List.take_take, Nat.min_eq_left (by omega), Nat.min_eq_left (by omega),
        List.take_left, ← hlen, List.take_left] at hfront
      exact hfront.symm

/-- **The run follows the reference framing exactly where no short tail is
lost.** -/
theorem streamRun_iff (hcap : maxSendSize ≤ cap) {fuel : ℕ} (hfuel : scriptWeight script < fuel)
    (herr : NoError script) (hp : netFraming.verdict p = .pending) :
    ((streamRun cap p script).frames = (lengthFraming.split (p ++ arrives script)).frames ∧
      (streamRun cap p script).rejected = (lengthFraming.split (p ++ arrives script)).rejected) ↔
      TailsKeptFor cap fuel p script := by
  induction fuel generalizing p script with
  | zero => omega
  | succ fuel ih =>
    obtain ⟨hpend, hrest, hlt⟩ := round_spec hcap herr hp
    obtain ⟨bytes, hcut, htail, harr⟩ := round_arrives hcap herr hp
    have hrun := streamRun_eq hcap herr hp
    have hwhole := lengthFraming_split (p ++ arrives script)
    rcases hrej : (round cap p script).cut.rejected with _ | _
    · rcases hlast : (round cap p script).last with _ | _
      · -- the run goes on with the tail that was saved
        have hlt := hlt hlast
        have hpend := hpend hrej
        rw [hlast, if_neg (by simp)] at harr
        rw [hrej, hlast, if_neg (by simp)] at hrun
        rw [harr, ← List.append_assoc] at hwhole ⊢
        have hsplit : netFraming.split (p ++ bytes ++ arrives (round cap p script).rest) =
            (netFraming.split ((round cap p script).cut.rest ++
              arrives (round cap p script).rest)).prepend (round cap p script).cut.frames := by
          rw [hcut] at hrej ⊢
          exact Framing.split_append hrej _
        have hwhole' := lengthFraming_split
          ((round cap p script).cut.rest ++ arrives (round cap p script).rest)
        rw [hsplit, Framing.Split.prepend_frames, Framing.Split.prepend_rest, ← hwhole'.1,
          ← hwhole'.2, ← Bool.eq_iff_iff] at hwhole
        rw [hrun, hwhole.1, hwhole.2, Framing.Split.prepend_frames,
          Framing.Split.prepend_rejected, List.append_cancel_left_eq]
        simp only [TailsKeptFor, hrej, hlast, Bool.false_eq_true, if_false]
        by_cases hkept : (round cap p script).tail = (round cap p script).cut.rest
        · rw [if_pos hkept, ← hkept]
          exact ih (by omega) hrest hpend
        · -- other bytes were saved, as many as the tail has
          rw [if_neg hkept]
          have hshort : (round cap p script).cut.rest.length < netHeadSize := by
            by_contra hlong
            rw [htail, savedTail, if_neg hlong] at hkept
            exact hkept rfl
          have hle : (round cap p script).cut.rest.length ≤ (p ++ bytes).length := by
            have hflat := congrArg List.length
              (Framing.split_flatten (F := netFraming) (p ++ bytes))
            rw [List.length_append, ← hcut] at hflat
            omega
          refine harmless_iff (streamRun_first hcap hrest hpend) ?_ hshort hkept
          rw [htail, length_savedTail hle]
      · -- nothing more arrives, and both cut the same bytes
        rw [hlast, if_pos rfl, List.append_nil] at harr
        rw [hlast, if_pos (.inr rfl)] at hrun
        rw [harr, ← hcut] at hwhole
        rw [hrun, harr, hwhole.1, hrej]
        simp only [TailsKeptFor, hrej, hlast, Bool.false_eq_true, if_false, if_true]
        rw [Ne, ← hwhole.2]
        simp
    · -- what the stream is rejected for stays in front of what follows
      rw [hrej, if_pos (.inl rfl)] at hrun
      rw [hcut] at hrej hrun
      have hsame := Framing.split_append_of_rejected hrej
        (if (round cap p script).last then [] else arrives (round cap p script).rest)
      rw [List.append_assoc, ← harr] at hsame
      simp only [TailsKeptFor, hcut, hrej, if_true, iff_true]
      rw [hrun, hwhole.1, hsame.1, lengthFraming_rejected hsame.2]
      exact ⟨rfl, hrej⟩

/-- A connection that was just set up holds an empty tail. -/
theorem initSocketset_holds (key : SocketKey) (ip : String) (port : UInt16) (ntype t : ℤ) :
    (initSocketset key ip port ntype t).Holds (initSocketset key ip port ntype t) [] :=
  ⟨rfl, List.length_replicate, rfl, rfl⟩

/-- Messages differ where their bytes do. -/
theorem ofSocket_injective (s : SocketSet) : Function.Injective (NetData.ofSocket s) := by
  intro xs ys h
  have := congrArg NetData.bytes h
  rwa [NetData.ofSocket_bytes, NetData.ofSocket_bytes] at this

/-- **Reassembly.** What a new connection appends to `m_recvtmplst`, and
whether it is closed as malformed, is the reference framing of the bytes
that arrive, exactly where no short tail is lost. -/
theorem recvStream_reference_iff (sendbufsize readbufsize : ℤ) (key : SocketKey) (ip : String)
    (port : UInt16) (ntype t : ℤ) (herr : NoError script) :
    ((recvStream host (recvBufLen sendbufsize readbufsize) now
          (initSocketset key ip port ntype t) script).msgs =
        (lengthFraming.split (arrives script)).frames.map
          (NetData.ofSocket (initSocketset key ip port ntype t)) ∧
      ((recvStream host (recvBufLen sendbufsize readbufsize) now
          (initSocketset key ip port ntype t) script).ending = .rejected ↔
        (lengthFraming.split (arrives script)).rejected = true)) ↔
      TailsKept (recvBufLen sendbufsize readbufsize) [] script := by
  have hcap : maxSendSize ≤ recvBufLen sendbufsize readbufsize := by
    have := le_recvBufLen sendbufsize readbufsize
    omega
  have hnil : netFraming.verdict [] = .pending := Framing.verdict_nil
  obtain ⟨hmsgs, hend⟩ := recvCalls_spec host now hcap (Nat.lt_succ_self _) herr hnil
    (initSocketset_holds key ip port ntype t)
  have hiff := streamRun_iff hcap (Nat.lt_succ_self _) herr hnil
  rw [List.nil_append] at hiff
  rw [TailsKept, ← hiff, recvStream, hmsgs, hend, ← Bool.eq_iff_iff,
    (List.map_injective_iff.mpr (ofSocket_injective _)).eq_iff]

/-- A frame and the header of the next, cut inside the body of the second. -/
theorem recvStream_reference_iff_body :
    (recvStream .little (recvBufLen 0 0) 0 (initSocketset ⟨5, 2, 2⟩ "" 0 1 0)
      [.data [0, 8, 0, 1, 0, 0, 0, 0, 0, 9, 0, 2, 0, 0, 0, 0], .eagain, .data [7]]).msgs =
      [[0, 8, 0, 1, 0, 0, 0, 0], [0, 9, 0, 2, 0, 0, 0, 0, 7]].map
        (NetData.ofSocket (initSocketset ⟨5, 2, 2⟩ "" 0 1 0)) :=
  ((recvStream_reference_iff .little 0 0 0 ⟨5, 2, 2⟩ "" 0 1 0 (by simp [NoError])).mpr
    (by decide)).1

/-- **A short tail behind a frame is lost**: the second frame, cut after
three bytes, comes out with the first three bytes of the frame before it. -/
theorem recvStream_loses_tail :
    (recvStream .little (recvBufLen 0 0) 0 (initSocketset ⟨5, 2, 2⟩ "" 0 1 0)
        [.data [0, 8, 0, 1, 0, 0, 0, 0, 0, 9, 3], .eagain, .data [2, 0, 0, 0, 0, 7]]).msgs ≠
      (lengthFraming.split (arrives
        [.data [0, 8, 0, 1, 0, 0, 0, 0, 0, 9, 3], .eagain, .data [2, 0, 0, 0, 0, 7]])).frames.map
        (NetData.ofSocket (initSocketset ⟨5, 2, 2⟩ "" 0 1 0)) := by
  decide

end Network

end EupuServer
