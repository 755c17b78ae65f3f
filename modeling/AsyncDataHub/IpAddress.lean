import Mathlib

/-! The address classes of Python 3.12's `ipaddress`: networks by their prefix, the tables of the
two families, and the IPv6 addresses that stand for an IPv4 one. -/
namespace AsyncDataHub

inductive IpAddress
  | v4 (ip : BitVec 32)
  | v6 (ip : BitVec 128)
  deriving DecidableEq

namespace IpAddress

structure Network (w : ℕ) where
  address : BitVec w
  length : ℕ

def Network.contains {w : ℕ} (n : Network w) (ip : BitVec w) : Bool :=
  ip >>> (w - n.length) == n.address >>> (w - n.length)

def network4 (a b c d length : ℕ) : Network 32 where
  address := BitVec.ofNat 32 (((a * 256 + b) * 256 + c) * 256 + d)
  length

/-- The groups of an IPv6 address from the left, zeros after them. -/
def network6 (groups : List ℕ) (length : ℕ) : Network 128 where
  address := BitVec.ofNat 128
    ((groups.foldl (fun ip group => ip * 65536 + group) 0) * 65536 ^ (8 - groups.length))
  length

variable {w : ℕ} {n m : Network w} {a : BitVec w} {ip : IpAddress}

lemma Network.contains_address (hn : n.contains a = true) (hm : m.contains a = true)
    (hle : n.length ≤ m.length) : n.contains m.address = true := by
  simp only [Network.contains, beq_iff_eq] at hn hm ⊢
  have hshift : w - n.length = (w - m.length) + ((w - n.length) - (w - m.length)) := by omega
  rw [← hn, hshift, BitVec.shiftRight_add, BitVec.shiftRight_add, hm]

lemma Network.not_contains (hn : n.contains a = true) (hfirst : n.contains m.address = false)
    (hsecond : m.contains n.address = false) : m.contains a = false := by
  by_contra h
  rw [Bool.not_eq_false] at h
  rcases le_total n.length m.length with hle | hle
  · simp [Network.contains_address hn h hle] at hfirst
  · simp [Network.contains_address h hn hle] at hsecond

lemma Network.not_any (networks : List (Network w)) (hn : n.contains a = true)
    (hapart : networks.all fun m => !n.contains m.address && !m.contains n.address) :
    (networks.any fun m => m.contains a) = false := by
  simp only [List.all_eq_true, Bool.and_eq_true, Bool.not_eq_true'] at hapart
  simp only [List.any_eq_false, Bool.not_eq_true]
  intro m hm
  exact Network.not_contains hn (hapart m hm).1 (hapart m hm).2

def linklocalNetwork4 : Network 32 := network4 169 254 0 0 16

def loopbackNetwork4 : Network 32 := network4 127 0 0 0 8

def multicastNetwork4 : Network 32 := network4 224 0 0 0 4

/-- `_public_network`: the addresses that providers share among their customers. -/
def sharedNetwork4 : Network 32 := network4 100 64 0 0 10

def privateNetworks4 : List (Network 32) :=
  [network4 0 0 0 0 8, network4 10 0 0 0 8, network4 127 0 0 0 8, network4 169 254 0 0 16,
    network4 172 16 0 0 12, network4 192 0 0 0 24, network4 192 0 0 170 31, network4 192 0 2 0 24,
    network4 192 168 0 0 16, network4 198 18 0 0 15, network4 198 51 100 0 24,
    network4 203 0 113 0 24, network4 240 0 0 0 4, network4 255 255 255 255 32]

def privateNetworksExceptions4 : List (Network 32) :=
  [network4 192 0 0 9 32, network4 192 0 0 10 32]

def reservedNetwork4 : Network 32 := network4 240 0 0 0 4

def isPrivate4 (ip : BitVec 32) : Bool :=
  privateNetworks4.any (·.contains ip) && privateNetworksExceptions4.all (!·.contains ip)

def isGlobal4 (ip : BitVec 32) : Bool := !sharedNetwork4.contains ip && !isPrivate4 ip

def linklocalNetwork6 : Network 128 := network6 [0xfe80] 10

def multicastNetwork6 : Network 128 := network6 [0xff00] 8

def privateNetworks6 : List (Network 128) :=
  [network6 [0, 0, 0, 0, 0, 0, 0, 1] 128, network6 [] 128, network6 [0, 0, 0, 0, 0, 0xffff] 96,
    network6 [0x64, 0xff9b, 1] 48, network6 [0x100] 64, network6 [0x2001] 23,
    network6 [0x2001, 0xdb8] 32, network6 [0x2002] 16, network6 [0x3fff] 20, network6 [0xfc00] 7,
    network6 [0xfe80] 10]

def privateNetworksExceptions6 : List (Network 128) :=
  [network6 [0x2001, 1, 0, 0, 0, 0, 0, 1] 128, network6 [0x2001, 1, 0, 0, 0, 0, 0, 2] 128,
    network6 [0x2001, 3] 32, network6 [0x2001, 4, 0x112] 48, network6 [0x2001, 0x20] 28,
    network6 [0x2001, 0x30] 28]

def reservedNetworks6 : List (Network 128) :=
  [network6 [] 8, network6 [0x100] 8, network6 [0x200] 7, network6 [0x400] 6, network6 [0x800] 5,
    network6 [0x1000] 4, network6 [0x4000] 3, network6 [0x6000] 3, network6 [0x8000] 3,
    network6 [0xa000] 3, network6 [0xc000] 3, network6 [0xe000] 4, network6 [0xf000] 5,
    network6 [0xf800] 6, network6 [0xfe00] 9]

def isPrivate6 (ip : BitVec 128) : Bool :=
  privateNetworks6.any (·.contains ip) && privateNetworksExceptions6.all (!·.contains ip)

def ipv4Mapped (ip : BitVec 128) : Option (BitVec 32) :=
  if ip >>> 32 = 0xffff#128 then some (ip.setWidth 32) else none

/-- An IPv4-mapped address has the properties of its IPv4 address. -/
def property (on4 : BitVec 32 → Bool) (on6 : BitVec 128 → Bool) : IpAddress → Bool
  | v4 ip => on4 ip
  | v6 ip =>
    match ipv4Mapped ip with
    | some mapped => on4 mapped
    | none => on6 ip

def isPrivate : IpAddress → Bool := property isPrivate4 isPrivate6

def isGlobal : IpAddress → Bool := property isGlobal4 (!isPrivate6 ·)

def isLoopback : IpAddress → Bool := property loopbackNetwork4.contains (· == 1#128)

def isLinkLocal : IpAddress → Bool :=
  property linklocalNetwork4.contains linklocalNetwork6.contains

def isMulticast : IpAddress → Bool :=
  property multicastNetwork4.contains multicastNetwork6.contains

def isReserved : IpAddress → Bool :=
  property reservedNetwork4.contains fun ip => reservedNetworks6.any (·.contains ip)

def isUnspecified : IpAddress → Bool := property (· == 0#32) (· == 0#128)

/-- `100.64.0.0/10`, the range that is neither private nor global. -/
def isShared : IpAddress → Bool := property sharedNetwork4.contains fun _ => false

def lookedUp : IpAddress → BitVec 32 ⊕ BitVec 128
  | v4 ip => .inl ip
  | v6 ip =>
    match ipv4Mapped ip with
    | some mapped => .inl mapped
    | none => .inr ip

lemma property_eq (on4 : BitVec 32 → Bool) (on6 : BitVec 128 → Bool) (ip : IpAddress) :
    property on4 on6 ip = Sum.elim on4 on6 ip.lookedUp := by
  cases ip with
  | v4 ip => rfl
  | v6 ip =>
    simp only [property, lookedUp]
    cases ipv4Mapped ip <;> rfl

lemma not_private_of_shared {ip : BitVec 32} (h : sharedNetwork4.contains ip = true) :
    isPrivate4 ip = false := by
  rw [isPrivate4, Network.not_any privateNetworks4 h (by decide +kernel), Bool.false_and]

lemma isGlobal_eq_false : ip.isGlobal = false ↔ ip.isPrivate = true ∨ ip.isShared = true := by
  simp only [isGlobal, isPrivate, isShared, property_eq]
  cases ip.lookedUp with
  | inl ip => cases h : sharedNetwork4.contains ip <;> simp [isGlobal4, h]
  | inr ip => simp

lemma classes_of_shared (h : ip.isShared = true) :
    ip.isPrivate = false ∧ ip.isLoopback = false ∧ ip.isLinkLocal = false ∧
      ip.isMulticast = false ∧ ip.isReserved = false ∧ ip.isUnspecified = false := by
  simp only [isShared, isPrivate, isLoopback, isLinkLocal, isMulticast, isReserved, isUnspecified,
    property_eq] at h ⊢
  cases hip : ip.lookedUp with
  | inr ip => simp [hip] at h
  | inl ip =>
    simp only [hip, Sum.elim_inl] at h ⊢
    refine ⟨not_private_of_shared h, ?_, ?_, ?_, ?_, ?_⟩
    · exact Network.not_contains h (by decide +kernel) (by decide +kernel)
    · exact Network.not_contains h (by decide +kernel) (by decide +kernel)
    · exact Network.not_contains h (by decide +kernel) (by decide +kernel)
    · exact Network.not_contains h (by decide +kernel) (by decide +kernel)
    · by_contra hzero
      rw [Bool.not_eq_false, beq_iff_eq] at hzero
      exact absurd h (by rw [hzero]; decide +kernel)

end IpAddress

end AsyncDataHub
