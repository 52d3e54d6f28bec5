import EupuServer.Inet.Ntop6
import EupuServer.Protocol.Stream
/-!
# Addresses of either family

`eupu_inet_pton` and `eupu_inet_ntop`, which stand in for the functions of
the system where it has none, and `fgNtoA` and `fgAtoN` that the servers
call, on Linux with the functions of the C library. A text is accepted where
it is an address of the family (`eupuInetPton_spec`); what is printed for an
address is read back as that address (`eupuInetPton_eupuInetNtop`), so the
text that is kept of a peer leads back to it (`fgAtoN_fgNtoA`).
-/

namespace EupuServer

namespace Inet

open Bytes Numerals Protocol

/-- `AF_INET`. -/
def afInet : ℤ := 2

/-- `AF_INET6`. -/
def afInet6 : ℤ := 23

/-- `eupu_inet_pton`, with what is on the stack of `inet_pton4`. -/
def eupuInetPton (tmp4 : List UInt8) (af : ℤ) (src dst : List UInt8) : Option (ℤ × List UInt8) :=
  if af = afInet then inetPton4 tmp4 src dst 0
  else if af = afInet6 then inetPton6 tmp4 src dst
  else some (-1, dst)

/-- `eupu_inet_ntop`, with what is on the stacks of `inet_ntop6` and
`inet_ntop4`, and whether it returns `dst`. -/
def eupuInetNtop (tmp tmp4 : List UInt8) (af : ℤ) (src dst : List UInt8) (size : ℕ) :
    Option (Bool × List UInt8) :=
  if af = afInet then inetNtop4 tmp4 src 0 dst 0 size
  else if af = afInet6 then inetNtop6 tmp tmp4 src dst size
  else some (false, dst)

/-! ## What is accepted, and what is read back -/

/-- The bytes of an address. -/
def addressLen (af : ℤ) : ℕ := if af = afInet then 4 else if af = afInet6 then 16 else 0

/-- The text is an address of the family. -/
def IsAddress (af : ℤ) (text a : List UInt8) : Prop :=
  af = afInet ∧ DottedQuad text a ∨ af = afInet6 ∧ Address6 text a

variable {af : ℤ} {tmp tmp4 src dst : List UInt8}

/-- **`eupu_inet_pton` accepts the addresses of the family and nothing
else.** Whatever the string is and whatever was on the stack, no access
leaves a buffer; an address is written to `dst` and 1 returned, and else
`dst` is left as it was and 0 returned, or -1 for another family. -/
theorem eupuInetPton_spec (htmp4 : tmp4.length = 4) (hdst : addressLen af ≤ dst.length) :
    (∃ a, IsAddress af (chars src) a ∧ eupuInetPton tmp4 af src dst = some (1, blit dst 0 a)) ∨
      (∀ a, ¬ IsAddress af (chars src) a) ∧
        eupuInetPton tmp4 af src dst =
          some (if af = afInet ∨ af = afInet6 then 0 else -1, dst) := by
  have hdiff : afInet ≠ afInet6 := by decide
  by_cases hfour : af = afInet
  · subst hfour
    rw [show addressLen afInet = 4 from rfl] at hdst
    rw [eupuInetPton, if_pos rfl, if_pos (.inl rfl)]
    rcases @inetPton4_spec _ src _ 0 htmp4 (by omega) with ⟨a, ha, heq⟩ | ⟨hnone, heq⟩
    · exact .inl ⟨a, .inl ⟨rfl, ha⟩, heq⟩
    · refine .inr ⟨?_, heq⟩
      rintro a (⟨-, ha⟩ | ⟨hfam, -⟩)
      · exact hnone a ha
      · exact hdiff hfam
  · by_cases hsix : af = afInet6
    · subst hsix
      rw [show addressLen afInet6 = 16 from rfl] at hdst
      rw [eupuInetPton, if_neg hfour, if_pos rfl, if_pos (.inr rfl)]
      rcases @inetPton6_spec _ src _ htmp4 hdst with ⟨a, ha, heq⟩ | ⟨hnone, heq⟩
      · exact .inl ⟨a, .inr ⟨rfl, ha⟩, heq⟩
      · refine .inr ⟨?_, heq⟩
        rintro a (⟨hfam, -⟩ | ⟨-, ha⟩)
        · exact hfour hfam
        · exact hnone a ha
    · rw [eupuInetPton, if_neg hfour, if_neg hsix, if_neg (by simp [hfour, hsix])]
      refine .inr ⟨?_, rfl⟩
      rintro a (⟨hfam, -⟩ | ⟨hfam, -⟩)
      · exact hfour hfam
      · exact hsix hfam

/-- `"1.2.3.040"`, with a last octet that has a zero in front. -/
theorem eupuInetPton_spec_zero :
    (∃ a, IsAddress afInet (chars [49, 46, 50, 46, 51, 46, 48, 52, 48, 0]) a ∧
        eupuInetPton [7, 7, 7, 7] afInet [49, 46, 50, 46, 51, 46, 48, 52, 48, 0] [9, 9, 9, 9, 9] =
          some (1, blit [9, 9, 9, 9, 9] 0 a)) ∨
      (∀ a, ¬ IsAddress afInet (chars [49, 46, 50, 46, 51, 46, 48, 52, 48, 0]) a) ∧
        eupuInetPton [7, 7, 7, 7] afInet [49, 46, 50, 46, 51, 46, 48, 52, 48, 0] [9, 9, 9, 9, 9] =
          some (if afInet = afInet ∨ afInet = afInet6 then 0 else -1, [9, 9, 9, 9, 9]) :=
  eupuInetPton_spec rfl (by decide)

/-- **An address is read back from its text**, in either family, whatever
the address is and whatever was in the buffers. -/
theorem eupuInetPton_eupuInetNtop {tmp4' dst' a tail : List UInt8} {size : ℕ}
    (haf : af = afInet ∨ af = afInet6) (htmp : tmp.length = 46) (htmp4 : tmp4.length = 16)
    (htmp4' : tmp4'.length = 4) (ha : a.length = addressLen af) (hsize : 46 ≤ size)
    (hdst : size ≤ dst.length) (hdst' : addressLen af ≤ dst'.length) :
    ∃ text, eupuInetNtop tmp tmp4 af a dst size = some (true, blit dst 0 (text ++ [0])) ∧
      eupuInetPton tmp4' af (text ++ 0 :: tail) dst' = some (1, blit dst' 0 a) := by
  rcases haf with rfl | rfl
  · have hfour : a.length = 4 := ha
    have hshort := length_dotted_le hfour
    have hprint := inetNtop4_eq htmp4 (show 0 + 4 ≤ a.length by omega)
      (show 0 + size ≤ dst.length by omega)
    rw [List.drop_zero, List.take_of_length_le hfour.le, if_pos (by omega)] at hprint
    exact ⟨dotted a, hprint, inetPton4_dotted htmp4' hfour (by rw [Nat.zero_add]; exact hdst')⟩
  · exact inetPton6_inetNtop6 htmp htmp4 htmp4' ha hsize hdst hdst'

/-- The address `::ffff:1.2.3.4`. -/
theorem eupuInetPton_eupuInetNtop_mapped :
    ∃ text, eupuInetNtop (List.replicate 46 7) (List.replicate 16 7) afInet6
        [0, 0, 0, 0, 0, 0, 0, 0, 0, 0, 255, 255, 1, 2, 3, 4] (List.replicate 50 9) 50 =
          some (true, blit (List.replicate 50 9) 0 (text ++ [0])) ∧
      eupuInetPton [7, 7, 7, 7] afInet6 (text ++ 0 :: [58]) (List.replicate 16 9) =
        some (1, blit (List.replicate 16 9) 0
          [0, 0, 0, 0, 0, 0, 0, 0, 0, 0, 255, 255, 1, 2, 3, 4]) :=
  eupuInetPton_eupuInetNtop (.inr rfl) rfl rfl rfl rfl (by decide) (by decide) (by decide)

/-- **`inet_ntop6` abbreviates the longest run of zeros**, and the first of
those: the words in front of it and behind it stand on either side of the
`::`, and an address that has no two zeros in a row is printed in full. -/
theorem inetNtop6_longest {size : ℕ} (htmp : tmp.length = 46) (htmp4 : tmp4.length = 16)
    (hsrc : src.length = 16) (hsize : 46 ≤ size) (hdst : size ≤ dst.length) :
    ∃ text, inetNtop6 tmp tmp4 src dst size = some (true, blit dst 0 (text ++ [0])) ∧
      ((∃ r : ZeroRun, 2 ≤ r.len ∧ r.Zeros (words6 src) ∧
          (∀ q : ZeroRun, q.Zeros (words6 src) → r.Beats q) ∧
          text = join ((words6 src).take r.base) ++
            58 :: 58 :: backText (words6 src) (src.drop 12) r) ∨
        (∀ q : ZeroRun, q.Zeros (words6 src) → q.len < 2) ∧ text = join (words6 src)) := by
  have htake : src.take 16 = src := List.take_of_length_le hsrc.le
  have hprint := inetNtop6_eq htmp htmp4 hsrc.ge hdst
  rw [htake, if_pos ((length_addressText_lt hsrc).trans_le hsize)] at hprint
  refine ⟨addressText src, hprint, ?_⟩
  have hlongest := bestRun_longest (words6 src)
  unfold addressText text6
  rcases hbest : bestRun (words6 src) with _ | r
  · rw [hbest] at hlongest
    exact .inr ⟨hlongest, rfl⟩
  · rw [hbest] at hlongest
    obtain ⟨htwo, hzeros, hbeats⟩ := hlongest
    exact .inl ⟨r, htwo, hzeros, hbeats, rfl⟩

/-- `1:0:0:2:0:0:0:3`, whose second run is the longer one. -/
theorem inetNtop6_longest_second :
    ∃ text, inetNtop6 (List.replicate 46 7) (List.replicate 16 7)
        [0, 1, 0, 0, 0, 0, 0, 2, 0, 0, 0, 0, 0, 0, 0, 3] (List.replicate 46 9) 46 =
          some (true, blit (List.replicate 46 9) 0 (text ++ [0])) ∧
      ((∃ r : ZeroRun, 2 ≤ r.len ∧
          r.Zeros (words6 [0, 1, 0, 0, 0, 0, 0, 2, 0, 0, 0, 0, 0, 0, 0, 3]) ∧
          (∀ q : ZeroRun, q.Zeros (words6 [0, 1, 0, 0, 0, 0, 0, 2, 0, 0, 0, 0, 0, 0, 0, 3]) →
            r.Beats q) ∧
          text = join ((words6 [0, 1, 0, 0, 0, 0, 0, 2, 0, 0, 0, 0, 0, 0, 0, 3]).take r.base) ++
            58 :: 58 :: backText (words6 [0, 1, 0, 0, 0, 0, 0, 2, 0, 0, 0, 0, 0, 0, 0, 3])
              [0, 0, 0, 3] r) ∨
        (∀ q : ZeroRun, q.Zeros (words6 [0, 1, 0, 0, 0, 0, 0, 2, 0, 0, 0, 0, 0, 0, 0, 3]) →
            q.len < 2) ∧
          text = join (words6 [0, 1, 0, 0, 0, 0, 0, 2, 0, 0, 0, 0, 0, 0, 0, 3])) :=
  inetNtop6_longest rfl rfl rfl (by decide) (by decide)

/-! ## The addresses of peers -/

/-- The system the servers are built for: `OS_LINUX`, or `OS_WINDOWS`. -/
inductive Os
  | linux
  | windows
  deriving DecidableEq, Repr

/-- `inet_ntop` and `inet_pton` of the C library: whether the first returns
`dst`, and what the second returns, and with each what is then in `dst`. -/
structure InetFunctions where
  inetNtop : ℤ → List UInt8 → List UInt8 → ℕ → Option (Bool × List UInt8)
  inetPton : ℤ → List UInt8 → List UInt8 → Option (ℤ × List UInt8)

/-- **What their manuals say of `AF_INET`**: the one prints the four octets in
decimal with dots between them and ends the string, where there is room for
the longest address; the other reads such a string and returns 1. -/
structure InetFunctions.DottedDecimal (libc : InetFunctions) : Prop where
  inetNtop : ∀ (a dst : List UInt8) (size : ℕ), a.length = 4 → 16 ≤ size → size ≤ dst.length →
    ∃ rest, libc.inetNtop afInet a dst size = some (true, dotted a ++ 0 :: rest)
  inetPton : ∀ a tail dst : List UInt8, a.length = 4 → 4 ≤ dst.length →
    libc.inetPton afInet (dotted a ++ 0 :: tail) dst = some (1, blit dst 0 a)

/-- What `fgNtoA` and `fgAtoN` call, with what is on the stacks of the
functions that stand in for those of the system. -/
def Os.inet (os : Os) (libc : InetFunctions) (tmp tmp4 tmp4' : List UInt8) : InetFunctions :=
  match os with
  | .linux => libc
  | .windows => ⟨eupuInetNtop tmp tmp4, eupuInetPton tmp4'⟩

variable (inet : InetFunctions) (host : Host)

/-- `fgNtoA`, with what is on its stack in `buf`. -/
def fgNtoA (buf : List UInt8) (ip : ℕ) : Option (List UInt8) :=
  (inet.inetNtop afInet (host.store 4 (host.hton 4 ip)) buf 100).bind fun (ret, buf) =>
    if ret then some (chars buf) else none

/-- `fgAtoN`. -/
def fgAtoN (ip : List UInt8) : Option ℕ :=
  (inet.inetPton afInet ip [0, 0, 0, 0]).map fun (ret, addr) =>
    if ret < 0 then 0 else host.load addr

variable {inet} {os : Os} {libc : InetFunctions} {tmp4' : List UInt8}

/-- The functions that stand in do what the manuals say. -/
theorem dottedDecimal_eupu (htmp4 : tmp4.length = 16) (htmp4' : tmp4'.length = 4) :
    InetFunctions.DottedDecimal ⟨eupuInetNtop tmp tmp4, eupuInetPton tmp4'⟩ where
  inetNtop a dst size ha hsize hdst := by
    have hshort := length_dotted_le ha
    have hprint := inetNtop4_eq htmp4 (show 0 + 4 ≤ a.length by omega)
      (show 0 + size ≤ dst.length by omega)
    rw [List.drop_zero, List.take_of_length_le ha.le, if_pos (by omega)] at hprint
    refine ⟨dst.drop (0 + (dotted a ++ [0]).length), ?_⟩
    simp only [eupuInetNtop, if_pos, hprint]
    simp [blit]
  inetPton a tail dst ha hdst := inetPton4_dotted htmp4' ha (by omega)

/-- So does what is called, on either system. -/
theorem dottedDecimal_inet (hlibc : os = .linux → libc.DottedDecimal) (htmp4 : tmp4.length = 16)
    (htmp4' : tmp4'.length = 4) : (os.inet libc tmp tmp4 tmp4').DottedDecimal := by
  cases os with
  | linux => exact hlibc rfl
  | windows => exact dottedDecimal_eupu htmp4 htmp4'

/-- What the network order spells is what the machine holds. -/
theorem load_toBE_hton {n v : ℕ} (hv : v < 256 ^ n) : host.load (toBE n (host.hton n v)) = v := by
  cases host with
  | little =>
    have hspell := toBE_ofBE (toLE n v)
    rw [length_toLE] at hspell
    show ofLE (toBE n (ofBE (toLE n v))) = v
    rw [hspell, ofLE_toLE n v hv]
  | big => exact ofBE_toBE hv

/-- **`fgNtoA`** prints the octets of an address, the highest one first. -/
theorem fgNtoA_eq (hinet : inet.DottedDecimal) {buf : List UInt8} (hbuf : buf.length = 100)
    (ip : ℕ) : fgNtoA inet host buf ip = some (dotted (toBE 4 ip)) := by
  have hquad : (toBE 4 ip).length = 4 := length_toBE 4 ip
  obtain ⟨rest, hprint⟩ := hinet.inetNtop (toBE 4 ip) buf 100 hquad (by decide) hbuf.ge
  rw [fgNtoA, store_hton, hprint, Option.bind_some]
  show some (chars (dotted (toBE 4 ip) ++ 0 :: rest)) = some (dotted (toBE 4 ip))
  rw [chars_append_nul (zero_notMem_dotted hquad)]

/-- **The address of a peer is read back from what is kept of it**: on either
system and on a machine of either byte order, what `accept` puts into
`sin_addr` is what `connect` is later given. Of the functions of the C library
it is used what their manuals say. -/
theorem fgAtoN_fgNtoA {buf tail : List UInt8} {addr : ℕ}
    (hlibc : os = .linux → libc.DottedDecimal) (hbuf : buf.length = 100)
    (htmp4 : tmp4.length = 16) (htmp4' : tmp4'.length = 4) (haddr : addr < 2 ^ 32) :
    ∃ s, fgNtoA (os.inet libc tmp tmp4 tmp4') host buf (host.hton 4 addr) = some s ∧
      fgAtoN (os.inet libc tmp tmp4 tmp4') host (s ++ 0 :: tail) = some addr := by
  have hinet : (os.inet libc tmp tmp4 tmp4').DottedDecimal :=
    dottedDecimal_inet hlibc htmp4 htmp4'
  refine ⟨_, fgNtoA_eq host hinet hbuf _, ?_⟩
  have hquad : (toBE 4 (host.hton 4 addr)).length = 4 := length_toBE 4 _
  have hblit : blit [0, 0, 0, 0] 0 (toBE 4 (host.hton 4 addr)) = toBE 4 (host.hton 4 addr) := by
    simp [blit, hquad]
  rw [fgAtoN, hinet.inetPton _ tail _ hquad (by simp), Option.map_some, hblit]
  exact congrArg some (load_toBE_hton host (by omega))

/-- The address `127.0.0.1` on a little-endian machine, with a C library that
prints and reads as the functions that stand in for it do. -/
theorem fgAtoN_fgNtoA_loopback :
    ∃ s, fgNtoA (Os.linux.inet ⟨eupuInetNtop [] (List.replicate 16 7), eupuInetPton [7, 7, 7, 7]⟩
          [] (List.replicate 16 7) [7, 7, 7, 7]) .little (List.replicate 100 7)
          (Host.little.hton 4 16777343) = some s ∧
      fgAtoN (Os.linux.inet ⟨eupuInetNtop [] (List.replicate 16 7), eupuInetPton [7, 7, 7, 7]⟩
          [] (List.replicate 16 7) [7, 7, 7, 7]) .little (s ++ 0 :: [46]) = some 16777343 :=
  fgAtoN_fgNtoA .little (fun _ => dottedDecimal_eupu rfl rfl) rfl rfl rfl (by decide)

end Inet

end EupuServer
