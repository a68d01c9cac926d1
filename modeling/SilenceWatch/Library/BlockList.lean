import Mathlib.Data.List.Basic
import Mathlib.Tactic.NormNum

/-!
# Block lists of addresses

Subnets of both families, by the numbers of their addresses. An IPv6 address that is
IPv4-mapped is looked up in the IPv4 subnets as well.
-/

namespace Ip

/-- An address, by its number: of 32 bits, or of 128. -/
inductive Address
  | v4 (n : ℕ)
  | v6 (n : ℕ)
  deriving DecidableEq

/-- The number of an IPv4-mapped address. -/
def mapped (n : ℕ) : ℕ := 0xffff * 2 ^ 32 + n

/-- The addresses that begin with the same bits. -/
structure Subnet where
  network : Address
  bits : ℕ
  deriving DecidableEq

/-- An address is in a subnet; an IPv4 address is compared with IPv6 subnets as it is mapped. -/
def Subnet.contains : Subnet → Address → Bool
  | ⟨.v4 network, bits⟩, .v4 n => n / 2 ^ (32 - bits) = network / 2 ^ (32 - bits)
  | ⟨.v4 network, bits⟩, .v6 n =>
    n / 2 ^ 32 = 0xffff && n % 2 ^ 32 / 2 ^ (32 - bits) = network / 2 ^ (32 - bits)
  | ⟨.v6 network, bits⟩, .v4 n => mapped n / 2 ^ (128 - bits) = network / 2 ^ (128 - bits)
  | ⟨.v6 network, bits⟩, .v6 n => n / 2 ^ (128 - bits) = network / 2 ^ (128 - bits)

/-- `BlockList`: its subnets. -/
abbrev BlockList := List Subnet

/-- `check`. -/
def BlockList.check (list : BlockList) (address : Address) : Bool := list.any (·.contains address)

variable {list : BlockList} {subnet : Subnet} {address : Address} {n network bits : ℕ}

/-- What is in a subnet of the list is blocked. -/
theorem BlockList.check_of_mem (hmem : subnet ∈ list) (h : subnet.contains address = true) :
    list.check address = true :=
  List.any_eq_true.mpr ⟨subnet, hmem, h⟩

/-- A mapped address is in the subnets that its IPv4 address is in. -/
theorem Subnet.contains_mapped (hn : n < 2 ^ 32) (subnet : Subnet) :
    subnet.contains (.v6 (mapped n)) = subnet.contains (.v4 n) := by
  obtain ⟨network, bits⟩ := subnet
  cases network with
  | v4 network =>
    have hhigh : mapped n / 2 ^ 32 = 0xffff := by
      unfold mapped
      omega
    have hlow : mapped n % 2 ^ 32 = n := by
      unfold mapped
      omega
    simp only [contains, hhigh, hlow, decide_true, Bool.true_and]
  | v6 network => rfl

/-- **A mapped address is blocked as its IPv4 address is.** -/
theorem BlockList.check_mapped (hn : n < 2 ^ 32) (list : BlockList) :
    list.check (.v6 (mapped n)) = list.check (.v4 n) := by
  unfold check
  congr 1
  exact funext fun subnet => subnet.contains_mapped hn

/-- An IPv6 address that begins with the bits of a subnet of the list is blocked. -/
theorem BlockList.check_of_div (hmem : ⟨.v6 network, bits⟩ ∈ list)
    (h : n / 2 ^ (128 - bits) = network / 2 ^ (128 - bits)) : list.check (.v6 n) = true :=
  check_of_mem hmem (decide_eq_true h)

end Ip
