import EupuServer.Epoll.Effect
import EupuServer.Network.Connect
import Mathlib.Data.Finset.Card
/-!
# The call of `doNonblockConnect`

For the machine a call of `doNonblockConnect` is a label or two: there is no
socket, or there is one and the connect fails, or it goes on. The calls to
the system that the source makes come to just that
(`doNonblockConnect_refines`). They also put the socket into an `fd_set`,
and the server may have more descriptors open than that has bits: no limit
the configuration sets keeps it below (`connect_overruns`).
-/

namespace EupuServer

namespace Epoll

open Network Protocol

variable {cfg : Config} {s : Sys} {th : ℕ} {ntype now : ℤ}
variable {host : Host} {fgAtoN : String → ℕ} {pserver : Option ConnectServer} {timeout : ℤ}
  {localip : String} {io : ConnectReplies}

/-! ## The labels it comes to -/

theorem exec_socketFail (hpc : s.connecting th = .checked ntype) :
    (server cfg now).exec (fun _ _ => True) s [.connect th .socketFail] =
      some (s.atConnect th .idle) := by
  have hnext : (server cfg now).next s (.connect th .socketFail) = some (s.atConnect th .idle) := by
    simp only [server, next, hpc, connectStep]
  rw [Machine.exec_cons [] trivial hnext, Machine.exec]

/-- The state once the thread has its socket. -/
def withSocket (s : Sys) (th : ℕ) (ntype fd : ℤ) : Sys :=
  (s.opened fd).atConnect th (.connecting ntype fd)

theorem next_withSocket {fd : ℤ} (hpc : s.connecting th = .checked ntype) (hfd : 0 ≤ fd)
    (hnew : fd ∉ s.openfds) : (server cfg now).next s (.connect th (.socket fd)) =
      some (withSocket s th ntype fd) := by
  simp only [server, next, hpc, connectStep]
  exact if_pos ⟨hfd, hnew⟩

theorem exec_socket {fd : ℤ} (hpc : s.connecting th = .checked ntype) (hfd : 0 ≤ fd)
    (hnew : fd ∉ s.openfds) :
    (server cfg now).exec (fun _ _ => True) s [.connect th (.socket fd)] =
      some (withSocket s th ntype fd) := by
  rw [Machine.exec_cons [] trivial (next_withSocket hpc hfd hnew), Machine.exec]

theorem exec_connectFail {fd : ℤ} (hpc : s.connecting th = .checked ntype) (hfd : 0 ≤ fd)
    (hnew : fd ∉ s.openfds) :
    (server cfg now).exec (fun _ _ => True) s
        [.connect th (.socket fd), .connect th .connectFail] =
      some (((withSocket s th ntype fd).close fd).atConnect th .idle) := by
  have hnext : (server cfg now).next (withSocket s th ntype fd) (.connect th .connectFail) =
      some (((withSocket s th ntype fd).close fd).atConnect th .idle) := by
    simp only [server, next, withSocket, Sys.atConnect, Function.update_self, connectStep]
  rw [Machine.exec_cons _ trivial (next_withSocket hpc hfd hnew),
    Machine.exec_cons [] trivial hnext, Machine.exec]

/-- **The machine's connect is the source's.** Whatever the system answers,
`doNonblockConnect` uses no descriptor but the one it opened, and that only
while it is open; the labels of the machine take its thread to where the
call leaves it, with the same descriptors open: one more where it returns
one, and where it returns -1 the ones that were. -/
theorem doNonblockConnect_refines (hpc : s.connecting th = .checked ntype)
    (hnew : 0 ≤ io.socket → io.socket ∉ s.openfds) :
    ∃ (as : List ConnectAction) (s' : Sys),
      (server cfg now).exec (fun _ _ => True) s (as.map (Action.connect th)) = some s' ∧
      openAfter s.openfds (doNonblockConnect host fgAtoN pserver timeout localip io).2 =
        some s'.openfds ∧
      ((doNonblockConnect host fgAtoN pserver timeout localip io).1 = -1 ∧
          s'.connecting th = .idle ∧ s'.openfds = s.openfds ∨
        ∃ fd, (doNonblockConnect host fgAtoN pserver timeout localip io).1 = fd ∧ 0 ≤ fd ∧
          s'.connecting th = .connecting ntype fd ∧ s'.openfds = insert fd s.openfds) := by
  have hout := @doNonblockConnect_outcome host fgAtoN pserver timeout localip io
  generalize doNonblockConnect host fgAtoN pserver timeout localip io = r at hout ⊢
  cases hout with
  | refused =>
    exact ⟨[.socketFail], _, exec_socketFail hpc, rfl, .inl ⟨rfl, Function.update_self .., rfl⟩⟩
  | noSocket hneg =>
    have hopen : openAfter s.openfds [.socket io.socket] = some s.openfds := by
      simp [openAfter, Call.handles, not_le.mpr hneg]
    exact ⟨[.socketFail], _, exec_socketFail hpc, hopen, .inl ⟨rfl, Function.update_self .., rfl⟩⟩
  | closed hfd h =>
    have hfds : (((withSocket s th ntype io.socket).close io.socket).atConnect th .idle).openfds =
        s.openfds := Finset.erase_insert (hnew hfd)
    refine ⟨[.socket io.socket, .connectFail], _, exec_connectFail hpc hfd (hnew hfd), ?_,
      .inl ⟨rfl, Function.update_self .., hfds⟩⟩
    rw [hfds]
    exact h.openAfter_close hfd (hnew hfd)
  | connected hfd h =>
    exact ⟨[.socket io.socket], _, exec_socket hpc hfd (hnew hfd), h.openAfter hfd (hnew hfd),
      .inr ⟨_, rfl, hfd, Function.update_self .., rfl⟩⟩

/-- A connect that the other side refuses (`ECONNREFUSED`), after the calls
on the socket have succeeded. -/
def refusedReplies : ConnectReplies := ⟨7, 0, 2, 0, 0, 0, 0, -1, 111, 0, 0, 0⟩

theorem doNonblockConnect_refines_refused :
    let s := (Sys.init peerConfig 0).atConnect 0 (.checked mainsvrType)
    let r := doNonblockConnect .little (fun _ => 16777343) (some ⟨"localhost", 8080, 8192, 8192⟩) 3
      "127.0.0.1" refusedReplies
    ∃ (as : List ConnectAction) (s' : Sys),
      (server peerConfig 0).exec (fun _ _ => True) s (as.map (Action.connect 0)) = some s' ∧
      openAfter s.openfds r.2 = some s'.openfds ∧
      (r.1 = -1 ∧ s'.connecting 0 = .idle ∧ s'.openfds = s.openfds ∨
        ∃ fd, r.1 = fd ∧ 0 ≤ fd ∧ s'.connecting 0 = .connecting mainsvrType fd ∧
          s'.openfds = insert fd s.openfds) :=
  doNonblockConnect_refines rfl (fun _ => by decide)

/-! ## A crowded server -/

/-- The epoll thread is in `doAccept` and has accepted the clients of `F`;
nothing else has happened. -/
structure Crowd (cfg : Config) (F : Finset ℤ) (s : Sys) : Prop where
  pc : s.pc = .accept []
  openfds : s.openfds = insert cfg.listenfd cfg.otherfds ∪ F
  socketmap : s.socketmap.keys.length ≤ F.card
  epollset : ∀ fd, fd ∈ s.epollset → fd ∈ s.openfds
  keys : s.keys = {}
  connecting : s.connecting = fun _ => .idle

variable {F : Finset ℤ} {fd : ℤ}

/-- The first event is a client that connects. -/
theorem Crowd.empty (hmax : 0 < cfg.maxepollsize) :
    ∃ s, (server cfg now).Reachable s ∧ Crowd cfg ∅ s := by
  let evs : List EpollEvent := [⟨cfg.listenkey, .epollin⟩]
  have hrep : Reported cfg (Sys.init cfg now) evs := by
    refine ⟨hmax, by simp [evs], ?_⟩
    simp [evs, reported, Sys.init, IntMap.lookup_singleton_eq, Config.listenkey]
  have hwait : (server cfg now).next (Sys.init cfg now) (.epollWait evs) =
      some ((Sys.init cfg now).goto (.batch evs)) := if_pos hrep
  have hevent : (server cfg now).next ((Sys.init cfg now).goto (.batch evs)) (.event {}) =
      some (((Sys.init cfg now).goto (.batch evs)).goto (.accept [])) := if_pos ⟨rfl, rfl⟩
  refine ⟨_, .step (.step .start trivial hwait) trivial hevent, rfl, ?_, le_rfl, ?_, rfl, rfl⟩
  · exact (Finset.union_empty _).symm
  · intro k hk
    have hk : k ∈ (AList.singleton cfg.listenfd ⟨cfg.listenkey, false⟩ :
      IntMap Registration).keys := hk
    rw [AList.keys_singleton, List.mem_singleton] at hk
    exact hk ▸ Finset.mem_insert_self _ _

/-- A round of `doAccept` in which no call fails. -/
theorem acceptConn_ok (cfg : Config) (s : Sys) (fd : ℤ) :
    acceptConn cfg s fd "" 0 true true true true now true =
      (addClientToEpoll cfg (born (s.opened fd) (newClient fd "" 0 now))
        (newConn (s.opened fd) (newClient fd "" 0 now)) true).goto s.pc := by
  unfold acceptConn acceptConnCalls
  simp only [not_true_eq_false, if_false, createConnectServerMsg_eq]
  rw [born, addClientToEpoll_goto]
  exact addClientToEpoll_goto cfg (announce (getIndex (s.opened fd) fd 0)
    (newConn (s.opened fd) (newClient fd "" 0 now))) _ true s.pc

/-- **One client more**, for as long as the map has room. -/
theorem Crowd.accept (hs : Crowd cfg F s) (hfd : 0 ≤ fd) (hnew : fd ∉ s.openfds)
    (hroom : F.card < cfg.maxepollsize) :
    ∃ s', (server cfg now).next s (.accept (.conn fd "" 0 true true true true now true)) = some s' ∧
      Crowd cfg (insert fd F) s' := by
  have hset : fd ∉ s.epollset := fun h => hnew (hs.epollset fd h)
  have hF : fd ∉ F := fun h => hnew (by rw [hs.openfds]; exact Finset.mem_union_right _ h)
  have hnext : (server cfg now).next s (.accept (.conn fd "" 0 true true true true now true)) =
      some (acceptConn cfg s fd "" 0 true true true true now true) := by
    simp only [server, next, hs.pc]
    exact if_pos ⟨hfd, hnew⟩
  have hadd : Addable cfg (born (s.opened fd) (newClient fd "" 0 now)) fd true :=
    ⟨rfl, hfd, Finset.mem_insert_self _ _, hset, hs.socketmap.trans_lt hroom⟩
  refine ⟨_, hnext, ?_⟩
  rw [acceptConn_ok]
  rcases addClientToEpoll_cases cfg (born (s.opened fd) (newClient fd "" 0 now))
    (newConn (s.opened fd) (newClient fd "" 0 now)) true with ⟨hnot, -⟩ | ⟨-, heq⟩
  · exact absurd hadd hnot
  rw [heq]
  refine ⟨hs.pc, ?_, ?_, ?_, hs.keys, hs.connecting⟩
  · show insert fd s.openfds = _
    rw [hs.openfds, Finset.union_insert]
  · refine (IntMap.keys_length_insert_le _ _ _).trans ?_
    rw [Finset.card_insert_of_notMem hF]
    exact Nat.add_le_add_right hs.socketmap 1
  · intro k hk
    show k ∈ insert fd s.openfds
    rcases AList.mem_insert _ |>.mp hk with rfl | hk
    · exact Finset.mem_insert_self _ _
    · exact Finset.mem_insert_of_mem (hs.epollset k hk)

/-- **Every set of clients can be connected at once**, as long as the map
has room for it. -/
theorem exists_crowd (hmax : 0 < cfg.maxepollsize) (F : Finset ℤ) (hfd : ∀ k ∈ F, 0 ≤ k)
    (hnew : ∀ k ∈ F, k ∉ insert cfg.listenfd cfg.otherfds) (hroom : F.card ≤ cfg.maxepollsize) :
    ∃ s, (server cfg now).Reachable s ∧ Crowd cfg F s := by
  induction F using Finset.induction_on with
  | empty => exact Crowd.empty hmax
  | insert k F hk ih =>
    rw [Finset.card_insert_of_notMem hk] at hroom
    obtain ⟨s, hs, hcrowd⟩ := ih (fun j hj => hfd j (Finset.mem_insert_of_mem hj))
      (fun j hj => hnew j (Finset.mem_insert_of_mem hj)) (by omega)
    have hkopen : k ∉ s.openfds := by
      rw [hcrowd.openfds, Finset.mem_union, not_or]
      exact ⟨hnew k (Finset.mem_insert_self k F), hk⟩
    obtain ⟨s', hnext, hcrowd'⟩ :=
      hcrowd.accept (hfd k (Finset.mem_insert_self k F)) hkopen (by omega)
    exact ⟨s', .step hs trivial hnext, hcrowd'⟩

/-! ## The descriptor set -/

/-- `fd` is the descriptor `socket` returns, which is the lowest one that is
not open. -/
structure Lowest (fds : Finset ℤ) (fd : ℤ) : Prop where
  nonneg : 0 ≤ fd
  new : fd ∉ fds
  least : ∀ k, 0 ≤ k → k < fd → k ∈ fds

/-- It is above a bound where all below are taken. -/
theorem Lowest.le_iff {fds : Finset ℤ} (h : Lowest fds fd) {n : ℤ} :
    n ≤ fd ↔ ∀ k, 0 ≤ k → k < n → k ∈ fds := by
  constructor
  · exact fun hle k hk hkn => h.least k hk (by omega)
  · intro hall
    by_contra hlt
    exact h.new (hall fd h.nonneg (by omega))

/-- **The set is overrun** by the connects that are waited for while every
descriptor it has a bit for is taken, and by no others. -/
theorem doNonblockConnect_overruns_iff (hlow : Lowest s.openfds io.socket) :
    Overruns (doNonblockConnect host fgAtoN pserver timeout localip io).2 ↔
      UnderWay pserver localip io ∧ ∀ k, 0 ≤ k → k < fdSetSize → k ∈ s.openfds := by
  rw [overruns_iff, hlow.le_iff]

/-- The descriptors `fd_set` has a bit for, but for those `startup` left. -/
def setFds (cfg : Config) : Finset ℤ :=
  ((Finset.range 1024).image fun n : ℕ => (n : ℤ)).filter (· ∉ insert cfg.listenfd cfg.otherfds)

theorem mem_setFds {k : ℤ} : k ∈ setFds cfg ↔
    (0 ≤ k ∧ k < fdSetSize) ∧ k ∉ insert cfg.listenfd cfg.otherfds := by
  unfold setFds fdSetSize
  rw [Finset.mem_filter, Finset.mem_image]
  refine and_congr_left fun _ => ⟨?_, fun hk => ⟨k.toNat, ?_, ?_⟩⟩
  · rintro ⟨n, hn, rfl⟩
    have hlt := Finset.mem_range.mp hn
    omega
  · rw [Finset.mem_range]
    omega
  · omega

/-- Where the map has room for as many, all of them can be taken, and a
thread be about to connect. -/
theorem exists_full (hmax : fdSetSize ≤ cfg.maxepollsize)
    (hserver : (cfg.server ntype).isSome = true) (htype : IsServerType ntype) :
    ∃ s, (server cfg now).Reachable s ∧ s.connecting th = .checked ntype ∧
      ∀ k, 0 ≤ k → k < fdSetSize → k ∈ s.openfds := by
  have hcard : (setFds cfg).card ≤ cfg.maxepollsize := by
    have himage : (setFds cfg).card ≤ 1024 :=
      (Finset.card_filter_le _ _).trans (Finset.card_image_le.trans (Finset.card_range 1024).le)
    unfold fdSetSize at hmax
    omega
  obtain ⟨s, hs, hcrowd⟩ := @exists_crowd cfg now (by unfold fdSetSize at hmax; omega) (setFds cfg)
    (fun k hk => (mem_setFds.mp hk).1.1) (fun k hk => (mem_setFds.mp hk).2) hcard
  obtain ⟨addr, haddr⟩ := Option.isSome_iff_exists.mp hserver
  have hkey : s.keys.ofType ntype = some {} := by
    rw [hcrowd.keys]
    rcases htype with rfl | rfl | rfl | rfl <;> rfl
  have hunlocked : s.keysLocked = false := by
    rw [Sys.keysLocked, hcrowd.pc]
  have hnext : (server cfg now).next s (.connect th (.start ntype)) =
      some (s.atConnect th (.checked ntype)) := by
    simp only [server, next, hcrowd.connecting, connectStep, hunlocked, hkey, haddr]
    rfl
  refine ⟨_, .step hs trivial hnext, Function.update_self .., fun k hk hlt => ?_⟩
  show k ∈ s.openfds
  rw [hcrowd.openfds, Finset.mem_union]
  by_cases hk' : k ∈ insert cfg.listenfd cfg.otherfds
  · exact .inl hk'
  · exact .inr (mem_setFds.mpr ⟨⟨hk, hlt⟩, hk'⟩)

/-- **The limit on connections does not protect the set.** Wherever the
configuration allows as many connections as `fd_set` has bits, the server
reaches a state in which a thread is about to connect, and then every
connect that has to be waited for writes behind the set. -/
theorem connect_overruns (hmax : fdSetSize ≤ cfg.maxepollsize)
    (hserver : (cfg.server ntype).isSome = true) (htype : IsServerType ntype) :
    ∃ s, (server cfg now).Reachable s ∧ s.connecting th = .checked ntype ∧
      ∀ (host : Host) (fgAtoN : String → ℕ) (pserver : Option ConnectServer) (timeout : ℤ)
        (localip : String) (io : ConnectReplies), Lowest s.openfds io.socket →
        (Overruns (doNonblockConnect host fgAtoN pserver timeout localip io).2 ↔
          UnderWay pserver localip io) := by
  obtain ⟨s, hs, hpc, hfull⟩ := @exists_full cfg th ntype now hmax hserver htype
  refine ⟨s, hs, hpc, fun host fgAtoN pserver timeout localip io hlow => ?_⟩
  rw [doNonblockConnect_overruns_iff hlow]
  exact and_iff_left hfull

/-- A server with the 5000 connections the constructor of the epoll thread
allows. -/
def wideConfig : Config := { peerConfig with maxepollsize := 5000 }

theorem connect_overruns_wide :
    ∃ s, (server wideConfig 0).Reachable s ∧ s.connecting 0 = .checked mainsvrType ∧
      ∀ (host : Host) (fgAtoN : String → ℕ) (pserver : Option ConnectServer) (timeout : ℤ)
        (localip : String) (io : ConnectReplies), Lowest s.openfds io.socket →
        (Overruns (doNonblockConnect host fgAtoN pserver timeout localip io).2 ↔
          UnderWay pserver localip io) :=
  connect_overruns (by decide) rfl (.inl rfl)

end Epoll

end EupuServer
