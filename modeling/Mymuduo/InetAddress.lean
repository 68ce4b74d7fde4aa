import Mathlib.Data.List.TakeWhile
import Mymuduo.ServerBalance

/-!
# Mymuduo.InetAddress — an IPv4 address and a port (`InetAddress.cc`)

`sockaddr_in` holds the port and the address in network order; the machine is little-endian.  The text of an
address comes from `inet_ntop`, and `inet_addr` reads it: one to four numbers between dots, each decimal,
octal with a leading `0` or hexadecimal with a leading `0x`, the last one filling the bytes that are left.

Every address is read back from its text, and the text of address and port tells them apart.  The names that
two servers give to their connections are different for that.
-/

namespace Mymuduo

open Lib

/-! ### Network order -/

/-- Exchange the bytes. -/
def htons (port : UInt16) : UInt16 := port <<< 8 ||| port >>> 8

/-- The same exchange. -/
def ntohs (port : UInt16) : UInt16 := htons port

theorem ntohs_htons (port : UInt16) : ntohs (htons port) = port := by
  apply UInt16.eq_of_toBitVec_eq
  simp only [ntohs, htons, UInt16.toBitVec_or, UInt16.toBitVec_shiftLeft, UInt16.toBitVec_shiftRight]
  ext i hi
  have hshift : (8 : UInt16).toBitVec % 16 = 8 := rfl
  simp only [hshift, BitVec.getElem_or]
  simp
  grind

theorem htons_ntohs (port : UInt16) : htons (ntohs port) = port := ntohs_htons port

/-- The four bytes in their order in memory. -/
def pack (a b c d : ℕ) : UInt32 := UInt32.ofNat (a + 2 ^ 8 * b + 2 ^ 16 * c + 2 ^ 24 * d)

/-- The bytes in their order in memory. -/
def octets (addr : UInt32) : List ℕ :=
  [addr.toNat % 2 ^ 8, addr.toNat / 2 ^ 8 % 2 ^ 8, addr.toNat / 2 ^ 16 % 2 ^ 8, addr.toNat / 2 ^ 24]

/-! ### `inet_addr` and `inet_ntop` -/

def INADDR_NONE : UInt32 := 0xffffffff

def isspace (c : Char) : Bool := c ∈ [' ', '\t', '\n', '\x0b', '\x0c', '\r']

def isHexDigit (c : Char) : Bool := c.isDigit || ('a' ≤ c && c ≤ 'f') || ('A' ≤ c && c ≤ 'F')

def hexValue (c : Char) : ℕ :=
  if c.isDigit then c.toNat - 48 else if 'a' ≤ c then c.toNat - 87 else c.toNat - 55

/-- One number, as `strtoul` reads it with base `0`. -/
def number : List Char → Option ℕ
  | '0' :: 'x' :: hs | '0' :: 'X' :: hs =>
    if hs ≠ [] ∧ hs.all isHexDigit then some (hs.foldl (fun n c => 16 * n + hexValue c) 0) else none
  | '0' :: os => if os.all fun c => '0' ≤ c && c ≤ '7' then some (Nat.ofDigitChars 8 os 0) else none
  | ds => if ds ≠ [] ∧ ds.all Char.isDigit then some (Nat.ofDigitChars 10 ds 0) else none

/-- The address of the numbers between the dots. -/
def assemble : List ℕ → Option UInt32
  | [d] => if d < 2 ^ 32 then
      some (pack (d / 2 ^ 24) (d / 2 ^ 16 % 2 ^ 8) (d / 2 ^ 8 % 2 ^ 8) (d % 2 ^ 8)) else none
  | [a, d] => if a < 2 ^ 8 ∧ d < 2 ^ 24 then
      some (pack a (d / 2 ^ 16) (d / 2 ^ 8 % 2 ^ 8) (d % 2 ^ 8)) else none
  | [a, b, d] => if a < 2 ^ 8 ∧ b < 2 ^ 8 ∧ d < 2 ^ 16 then
      some (pack a b (d / 2 ^ 8) (d % 2 ^ 8)) else none
  | [a, b, c, d] => if a < 2 ^ 8 ∧ b < 2 ^ 8 ∧ c < 2 ^ 8 ∧ d < 2 ^ 8 then
      some (pack a b c d) else none
  | _ => none

/-- The text ends at the first `'\0'` or white space. -/
def inet_addr (cp : List Char) : UInt32 :=
  let text := cp.takeWhile fun c => c ≠ '\x00' && !isspace c
  (((text.splitOn '.').mapM number).bind assemble).getD INADDR_NONE

/-- `"%u.%u.%u.%u"`, which fits any buffer of 16 bytes. -/
def inet_ntop (addr : UInt32) : List Char :=
  ['.'].intercalate ((octets addr).map (Nat.toDigits 10))

theorem not_mem_toDigits {c : Char} (hc : c.isDigit = false) (n : ℕ) : c ∉ Nat.toDigits 10 n := by
  intro hm
  rw [Nat.isDigit_of_mem_toDigits (by decide) (by decide) hm] at hc
  cases hc

theorem inet_ntop_eq (addr : UInt32) : inet_ntop addr =
    Nat.toDigits 10 (addr.toNat % 2 ^ 8) ++ '.' :: (Nat.toDigits 10 (addr.toNat / 2 ^ 8 % 2 ^ 8) ++
      '.' :: (Nat.toDigits 10 (addr.toNat / 2 ^ 16 % 2 ^ 8) ++
        '.' :: Nat.toDigits 10 (addr.toNat / 2 ^ 24))) := by
  simp [inet_ntop, octets, List.intercalate_cons_cons]

theorem mem_inet_ntop {addr : UInt32} {c : Char} (hc : c ∈ inet_ntop addr) :
    c.isDigit = true ∨ c = '.' := by
  have hdigit : ∀ n, c ∈ Nat.toDigits 10 n → c.isDigit = true := fun n =>
    Nat.isDigit_of_mem_toDigits (by decide) (by decide)
  simp only [inet_ntop_eq, List.mem_append, List.mem_cons] at hc
  rcases hc with hc | hc | hc | hc | hc | hc | hc
  all_goals first | exact .inr hc | exact .inl (hdigit _ hc)

/-- A byte is read back from its digits. -/
theorem number_toDigits : ∀ n < 2 ^ 8, number (Nat.toDigits 10 n) = some n := by decide +kernel

theorem pack_octets (addr : UInt32) :
    pack (addr.toNat % 2 ^ 8) (addr.toNat / 2 ^ 8 % 2 ^ 8) (addr.toNat / 2 ^ 16 % 2 ^ 8)
      (addr.toNat / 2 ^ 24) = addr := by
  have h : addr.toNat % 2 ^ 8 + 2 ^ 8 * (addr.toNat / 2 ^ 8 % 2 ^ 8) +
      2 ^ 16 * (addr.toNat / 2 ^ 16 % 2 ^ 8) + 2 ^ 24 * (addr.toNat / 2 ^ 24) = addr.toNat := by
    omega
  rw [pack, h, UInt32.ofNat_toNat]

/-- **Every address is read back from its text.** -/
theorem inet_addr_inet_ntop (addr : UInt32) : inet_addr (inet_ntop addr) = addr := by
  have htext : (inet_ntop addr).takeWhile (fun c => c ≠ '\x00' && !isspace c) = inet_ntop addr := by
    rw [List.takeWhile_eq_self_iff]
    intro c hc
    rcases mem_inet_ntop hc with hd | rfl
    · by_contra hn
      have hc' : c = '\x00' ∨ isspace c = true := by simpa [or_iff_not_imp_left] using hn
      rcases hc' with rfl | hs
      · cases hd
      · simp only [isspace, List.mem_cons, List.not_mem_nil, or_false, decide_eq_true_eq] at hs
        rcases hs with rfl | rfl | rfl | rfl | rfl | rfl <;> cases hd
    · decide
  have hsplit : (inet_ntop addr).splitOn '.' = (octets addr).map (Nat.toDigits 10) := by
    refine List.splitOn_intercalate _ (fun l hl => ?_) (by simp [octets])
    obtain ⟨n, -, rfl⟩ := List.mem_map.mp hl
    exact not_mem_toDigits (by decide) n
  obtain ⟨h0, h1, h2, h3⟩ : addr.toNat % 2 ^ 8 < 2 ^ 8 ∧ addr.toNat / 2 ^ 8 % 2 ^ 8 < 2 ^ 8 ∧
      addr.toNat / 2 ^ 16 % 2 ^ 8 < 2 ^ 8 ∧ addr.toNat / 2 ^ 24 < 2 ^ 8 := by
    have h := addr.toNat_lt
    omega
  have hnumbers : ((octets addr).map (Nat.toDigits 10)).mapM number = some (octets addr) := by
    simp only [octets, List.map_cons, List.map_nil, List.mapM_cons, List.mapM_nil, number_toDigits _ h0,
      number_toDigits _ h1, number_toDigits _ h2, number_toDigits _ h3]
    rfl
  have hpack : assemble (octets addr) = some addr := by
    simp only [octets, assemble]
    rw [if_pos ⟨h0, h1, h2, h3⟩, pack_octets]
  simp only [inet_addr, htext, hsplit, hnumbers, Option.bind_some, hpack, Option.getD_some]

/-! ### The class -/

structure SockaddrIn where
  sin_family : UInt16
  sin_port : UInt16
  s_addr : UInt32
  sin_zero : Vector UInt8 8
  deriving DecidableEq, Repr

def AF_INET : UInt16 := 2

structure InetAddress where
  addr : SockaddrIn
  deriving DecidableEq, Repr

namespace InetAddress

def new (port : UInt16) (ip : List Char) : InetAddress :=
  ⟨⟨AF_INET, htons port, inet_addr ip, .replicate 8 0⟩⟩

def toIp (a : InetAddress) : List Char := inet_ntop a.addr.s_addr

def toPort (a : InetAddress) : UInt16 := ntohs a.addr.sin_port

def toIpPort (a : InetAddress) : List Char :=
  inet_ntop a.addr.s_addr ++ ':' :: Nat.toDigits 10 (ntohs a.addr.sin_port).toNat

/-! ### Round trips -/

/-- Text and port of an address make the address, with zeros in the padding. -/
theorem new_toPort_toIp (a : InetAddress) (h : a.addr.sin_family = AF_INET) :
    new a.toPort a.toIp = ⟨{ a.addr with sin_zero := .replicate 8 0 }⟩ := by
  obtain ⟨⟨family, port, addr, zero⟩⟩ := a
  obtain rfl : family = AF_INET := h
  simp only [new, toPort, toIp, inet_addr_inet_ntop, htons_ntohs]

/-- An address that was written with hexadecimal and octal numbers. -/
theorem new_toPort_toIp_text : new (new 8000 "0x7f.01".toList).toPort (new 8000 "0x7f.01".toList).toIp =
    new 8000 "0x7f.01".toList :=
  new_toPort_toIp _ rfl

theorem toIpPort_inj {a b : InetAddress} (h : a.toIpPort = b.toIpPort) :
    a.addr.s_addr = b.addr.s_addr ∧ a.addr.sin_port = b.addr.sin_port := by
  have hcolon : ∀ addr, ':' ∉ inet_ntop addr := fun addr hm => by
    rcases mem_inet_ntop hm with hd | hd
    · cases hd
    · exact absurd hd (by decide)
  obtain ⟨hip, -, hport⟩ := (List.append_cons_inj_of_notMem (hcolon _)
    (not_mem_toDigits (by decide) _)).mp h
  refine ⟨?_, ?_⟩
  · rw [← inet_addr_inet_ntop a.addr.s_addr, hip, inet_addr_inet_ntop]
  · have hn := UInt16.toNat_inj.mp (Config.toDigits_inj hport)
    rw [← ntohs_htons a.addr.sin_port, ← ntohs_htons b.addr.sin_port]
    exact congrArg htons hn

theorem length_toIpPort (a : InetAddress) : a.toIpPort.length ≤ 21 := by
  have hdigits : ∀ {n k : ℕ}, 0 < k → n < 10 ^ k → (Nat.toDigits 10 n).length ≤ k := fun hk hn =>
    (Nat.length_toDigits_le_iff (by decide) hk).mpr hn
  have haddr := a.addr.s_addr.toNat_lt
  have h0 := hdigits (n := a.addr.s_addr.toNat % 2 ^ 8) (k := 3) (by decide) (by omega)
  have h1 := hdigits (n := a.addr.s_addr.toNat / 2 ^ 8 % 2 ^ 8) (k := 3) (by decide) (by omega)
  have h2 := hdigits (n := a.addr.s_addr.toNat / 2 ^ 16 % 2 ^ 8) (k := 3) (by decide) (by omega)
  have h3 := hdigits (n := a.addr.s_addr.toNat / 2 ^ 24) (k := 3) (by decide) (by omega)
  have hport := (ntohs a.addr.sin_port).toNat_lt
  have h4 := hdigits (n := (ntohs a.addr.sin_port).toNat) (k := 5) (by decide) (by omega)
  simp only [toIpPort, inet_ntop_eq, List.length_append, List.length_cons]
  omega

theorem mem_toIpPort {a : InetAddress} {c : Char} (hc : c ∈ a.toIpPort) :
    c.isDigit = true ∨ c = '.' ∨ c = ':' := by
  simp only [toIpPort, List.mem_append, List.mem_cons] at hc
  rcases hc with hc | hc | hc
  · exact (mem_inet_ntop hc).imp_right .inl
  · exact .inr (.inr hc)
  · exact .inl (Nat.isDigit_of_mem_toDigits (by decide) (by decide) hc)

end InetAddress

/-! ### The names of connections -/

/-- A server that listens at `listenAddr`. -/
def Config.listening (cfg : Config) (listenAddr : InetAddress) : Config :=
  { cfg with ipPort := listenAddr.toIpPort, ipPort_length := listenAddr.length_toIpPort }

/-- What stands before and after the last separator. -/
theorem append_cons_inj {α : Type*} {x : α} {as bs cs ds : List α} (hb : x ∉ bs) (hd : x ∉ ds)
    (h : as ++ x :: bs = cs ++ x :: ds) : as = cs ∧ bs = ds := by
  rcases List.append_eq_append_iff.mp h with ⟨es, rfl, he⟩ | ⟨es, rfl, he⟩
  · cases es with
    | nil => exact ⟨(List.append_nil _).symm, (List.cons.inj he).2⟩
    | cons e es =>
      obtain ⟨rfl, rfl⟩ := List.cons.inj he
      simp at hb
  · cases es with
    | nil => exact ⟨List.append_nil _, (List.cons.inj he).2.symm⟩
    | cons e es =>
      obtain ⟨rfl, rfl⟩ := List.cons.inj he
      simp at hd

theorem Config.hash_not_mem_decimal (n : ℤ) : '#' ∉ decimal n := by
  unfold decimal
  split
  · exact not_mem_toDigits (by decide) _
  · rw [List.mem_cons, not_or]
    exact ⟨by decide, not_mem_toDigits (by decide) _⟩

/-- The name of a connection tells the name and the address of its server, and its number. -/
theorem Config.connName_listening {cfg cfg' : Config} {a b : InetAddress} {m n : ℤ} (hm : IsInt m)
    (hn : IsInt n) (h : (cfg.listening a).connName m = (cfg'.listening b).connName n) :
    cfg.name = cfg'.name ∧ a.toIpPort = b.toIpPort ∧ m = n := by
  have hdash : ∀ a : InetAddress, '-' ∉ a.toIpPort := fun a hm => by
    rcases InetAddress.mem_toIpPort hm with hd | hd | hd
    · cases hd
    · exact absurd hd (by decide)
    · exact absurd hd (by decide)
  have heq : (cfg.name ++ '-' :: a.toIpPort) ++ '#' :: decimal m =
      (cfg'.name ++ '-' :: b.toIpPort) ++ '#' :: decimal n := by
    rw [connName_eq hm, connName_eq hn] at h
    simpa [listening] using h
  obtain ⟨haddr, hid⟩ := append_cons_inj (hash_not_mem_decimal m) (hash_not_mem_decimal n) heq
  obtain ⟨hname, hip⟩ := append_cons_inj (hdash a) (hdash b) haddr
  exact ⟨hname, hip, decimal_inj hid⟩

namespace TcpServer

variable {cfg : Config} {s s' : TcpServer} {C C' : TcpServer → Label → Prop}

theorem isInt_incrInt {n : ℤ} (h : Config.IsInt n) : Config.IsInt (incrInt n) := by
  unfold incrInt Config.IsInt at *
  split <;> omega

/-- Every connection has a number, also after `nextConnId_` has come round. -/
theorem named_of_reach (h : (sys cfg).Reach C s) : Config.IsInt s.nextConnId ∧
    ∀ c < s.accepted, ∃ n, Config.IsInt n ∧ s.nameOf c = cfg.connName n := by
  refine h.invariant (I := fun s => Config.IsInt s.nextConnId ∧
    ∀ c < s.accepted, ∃ n, Config.IsInt n ∧ s.nameOf c = cfg.connName n) (fun s hs => ?_)
    fun s lab s' hi _ hst => ?_
  · obtain rfl : s = start cfg := hs
    exact ⟨show Config.IsInt 1 from ⟨by decide, by decide⟩, fun c hc => absurd hc (Nat.not_lt_zero c)⟩
  · rcases keeps_or_accepts hst with hk | ha
    · rw [hk.nextConnId, hk.nameOf, hk.accepted]
      exact hi
    · rw [ha.nextConnId, ha.nameOf, ha.accepted]
      refine ⟨isInt_incrInt hi.1, fun c hc => ?_⟩
      by_cases hc' : c = s.accepted
      · exact ⟨s.nextConnId, hi.1, by rw [hc', Function.update_self]⟩
      · rw [Function.update_of_ne hc']
        exact hi.2 c (Nat.lt_of_le_of_ne (Nat.le_of_lt_succ hc) hc')

/-- **Servers at different addresses name their connections apart**, whatever each of them is called and has
done. -/
theorem names_apart {cfg cfg' : Config} {a b : InetAddress}
    (hab : a.addr.s_addr ≠ b.addr.s_addr ∨ a.addr.sin_port ≠ b.addr.sin_port)
    (h : (sys (cfg.listening a)).Reach C s) (h' : (sys (cfg'.listening b)).Reach C' s') {c c' : ConnId}
    (hc : c < s.accepted) (hc' : c' < s'.accepted) : s.nameOf c ≠ s'.nameOf c' := by
  obtain ⟨m, hm, hname⟩ := (named_of_reach h).2 c hc
  obtain ⟨n, hn, hname'⟩ := (named_of_reach h').2 c' hc'
  rw [hname, hname']
  intro heq
  obtain ⟨h1, h2⟩ := InetAddress.toIpPort_inj (Config.connName_listening hm hn heq).2.1
  rcases hab with hab | hab
  · exact hab h1
  · exact hab h2

/-- A server whose name looks like the beginning of the other's connection names. -/
def misnamed : Config := { config with name := "-127.0.0.1:8000#1".toList, numThreads := 2 }

/-- Two ports of one host. -/
theorem names_apart_ports : ∃ s s',
    (sys (config.listening (.new 8000 "127.0.0.1".toList))).Reach (fun _ _ => True) s ∧
    (sys (misnamed.listening (.new 8001 "127.0.0.1".toList))).Reach (fun _ _ => True) s' ∧
    s.accepted = 1 ∧ s'.accepted = 1 ∧ s.nameOf 0 ≠ s'.nameOf 0 := by
  obtain ⟨s, hr, hs⟩ := Sys.Reach.exists_of_execIf
    (M := sys (config.listening (.new 8000 "127.0.0.1".toList)))
    (s := start (config.listening (.new 8000 "127.0.0.1".toList))) (C := fun _ _ => True)
    (P := fun s => s.accepted = 1) (.init rfl) (accepting 7) (by decide +kernel)
  obtain ⟨s', hr', hs'⟩ := Sys.Reach.exists_of_execIf
    (M := sys (misnamed.listening (.new 8001 "127.0.0.1".toList)))
    (s := start (misnamed.listening (.new 8001 "127.0.0.1".toList))) (C := fun _ _ => True)
    (P := fun s => s.accepted = 1) (.init rfl) (accepting 7) (by decide +kernel)
  exact ⟨s, s', hr, hr', hs, hs', names_apart (.inr (by decide)) hr hr' (hs ▸ Nat.one_pos)
    (hs' ▸ Nat.one_pos)⟩

end TcpServer

end Mymuduo
