import CfgMgmt.Firmware.VringLayout
import CfgMgmt.Lib.Layout

/-!
# The places of a vring

`vring_init` computes the addresses of the three regions in 32 bits.  The kernel places them behind each
other, the used ring at the beginning of a page (`vringRegions`).  `vringInit_places` says that the
addresses are the same, for every vring that ends below 2³².
-/

namespace CfgMgmt.Firmware.VringInit

open CfgMgmt.Lib.Memory CfgMgmt.Lib.Layout CfgMgmt.Firmware.VirtioRing CfgMgmt.Firmware.VringLayout

/-! ### The function -/

/-- `sizeof (struct vring_desc)`. -/
abbrev sizeofVringDesc : ℕ := 4 + 4 + 4 + 2 + 2

/-- `sizeof (struct vring_avail)`. -/
abbrev sizeofVringAvail : ℕ := 2 + 2 + 2 * vringSize + 2

/-- `sizeof (struct vring_used)`. -/
abbrev sizeofVringUsed : ℕ := 2 + 2 + (4 + 4) * vringSize

/-- `struct vring`, with the addresses of the regions. -/
structure VringPtrs where
  desc : UInt32
  avail : UInt32
  used : UInt32
  availTail : UInt16
  dbgPrint : UInt16
  notify : Bool
  vringLen : UInt32

/-- The padding of `vring_init`, to the next boundary of 4 kB. -/
def pad (addr : UInt32) : UInt32 :=
  if addr &&& 0xFFF ≠ 0 then ((addr >>> 12) + 1) <<< 12 else addr

/-- `vring_init`: the vring, and the memory afterwards. -/
def vringInit (addr : UInt32) (notify : Bool) (mem : Mem) : VringPtrs × Mem :=
  let desc := addr
  let addr := addr + UInt32.ofNat (vringSize * sizeofVringDesc)
  let avail := addr
  let addr := addr + UInt32.ofNat sizeofVringAvail
  let addr := pad addr
  let vringLen := addr + UInt32.ofNat sizeofVringUsed - desc
  let used := addr
  ({ desc, avail, used, availTail := 0, dbgPrint := 0, notify, vringLen },
    -- `used->flags`
    store16 used.toNat 0 mem)

/-! ### The layout of the kernel -/

/-- The regions of a vring, as the kernel places them. -/
def vringRegions : List Region :=
  [⟨vringSize * sizeofVringDesc, 1, Nat.one_pos⟩, ⟨sizeofVringAvail, 1, Nat.one_pos⟩,
    ⟨sizeofVringUsed, 4096, Nat.succ_pos _⟩]

/-- The regions of the firmware. -/
def VringPtrs.extents (vr : VringPtrs) : List Extent :=
  [⟨vr.desc.toNat, vringSize * sizeofVringDesc⟩, ⟨vr.avail.toNat, sizeofVringAvail⟩,
    ⟨vr.used.toNat, sizeofVringUsed⟩]

/-! ### The addresses -/

lemma and_eq_zero_iff (n : ℕ) : n &&& 0xFFF = 0 ↔ 4096 ∣ n := by
  rw [Nat.dvd_iff_mod_eq_zero]
  exact iff_of_eq (congrArg (· = 0) (Nat.and_two_pow_sub_one_eq_mod n 12))

/-- The padding is right when it does not go beyond the last address. -/
lemma toNat_pad {addr : UInt32} (h : alignUp 4096 addr.toNat < 2 ^ 32) :
    (pad addr).toNat = alignUp 4096 addr.toNat := by
  have hpos : 0 < 4096 := Nat.succ_pos _
  have hlow : addr &&& 0xFFF = 0 ↔ 4096 ∣ addr.toNat := by
    rw [← UInt32.toNat_inj, UInt32.toNat_and]
    exact and_eq_zero_iff addr.toNat
  unfold pad
  by_cases hd : 4096 ∣ addr.toNat
  · rw [if_neg (not_not.2 (hlow.2 hd)), alignUp_of_dvd hpos hd]
  · rw [if_pos (hlow.not.2 hd)]
    rw [alignUp_of_not_dvd hpos hd] at h ⊢
    have hshift : (addr >>> 12).toNat = addr.toNat / 4096 := by
      rw [UInt32.toNat_shiftRight]
      exact Nat.shiftRight_eq_div_pow ..
    have hsucc : (addr >>> 12 + 1).toNat = addr.toNat / 4096 + 1 := by
      rw [UInt32.toNat_add, hshift]
      exact Nat.mod_eq_of_lt (by show _ + 1 < _; omega)
    rw [UInt32.toNat_shiftLeft, hsucc]
    show (addr.toNat / 4096 + 1) <<< 12 % 2 ^ 32 = _
    rw [Nat.shiftLeft_eq, Nat.mod_eq_of_lt (by omega)]
    omega

/-- The address behind the available ring. -/
abbrev availEnd (base : ℕ) : ℕ := base + vringSize * sizeofVringDesc + sizeofVringAvail

lemma place_vringRegions (base : ℕ) : place base vringRegions =
    [⟨base, vringSize * sizeofVringDesc⟩, ⟨base + vringSize * sizeofVringDesc, sizeofVringAvail⟩,
      ⟨alignUp 4096 (availEnd base), sizeofVringUsed⟩] := by
  simp only [vringRegions, place, Region.behind, Extent.stop, alignUp_one]

lemma stop_vringRegions (base : ℕ) :
    stop base vringRegions = alignUp 4096 (availEnd base) + sizeofVringUsed := by
  simp only [vringRegions, stop, Region.behind, Extent.stop, alignUp_one]

section Places

variable {addr : UInt32} (notify : Bool) (mem : Mem) (h : stop addr.toNat vringRegions < 2 ^ 32)
include h

lemma used_lt : alignUp 4096 (availEnd addr.toNat) + 2052 < 2 ^ 32 := by rwa [stop_vringRegions] at h

lemma availEnd_lt : addr.toNat + 4096 + 518 < 2 ^ 32 := by
  have hle : availEnd addr.toNat ≤ alignUp 4096 (availEnd addr.toNat) := le_alignUp (Nat.succ_pos _) _
  have hend : availEnd addr.toNat = addr.toNat + 4096 + 518 := rfl
  have hlt := used_lt h
  omega

lemma toNat_avail : (vringInit addr notify mem).1.avail.toNat = addr.toNat + 4096 := by
  have hlt := availEnd_lt h
  show (addr + 4096).toNat = _
  rw [UInt32.toNat_add]
  exact Nat.mod_eq_of_lt (Nat.lt_of_add_right_lt hlt)

lemma toNat_used :
    (vringInit addr notify mem).1.used.toNat = alignUp 4096 (availEnd addr.toNat) := by
  have hlt := used_lt h
  have hend : (addr + 4096 + 518).toNat = availEnd addr.toNat := by
    have havail : (addr + 4096).toNat = addr.toNat + 4096 := toNat_avail false mem h
    rw [UInt32.toNat_add, havail]
    exact Nat.mod_eq_of_lt (availEnd_lt h)
  show (pad (addr + 4096 + 518)).toNat = _
  rw [toNat_pad (by rw [hend]; omega), hend]

lemma toNat_vringLen : addr.toNat + (vringInit addr notify mem).1.vringLen.toNat =
    alignUp 4096 (availEnd addr.toNat) + 2052 := by
  have hused := toNat_used notify mem h
  have hbase := availEnd_lt h
  have hle : availEnd addr.toNat ≤ alignUp 4096 (availEnd addr.toNat) := le_alignUp (Nat.succ_pos _) _
  have hend : availEnd addr.toNat = addr.toNat + 4096 + 518 := rfl
  have hstop : ((vringInit addr notify mem).1.used + 2052).toNat =
      alignUp 4096 (availEnd addr.toNat) + 2052 := by
    rw [UInt32.toNat_add, hused]
    exact Nat.mod_eq_of_lt (used_lt h)
  show addr.toNat + ((vringInit addr notify mem).1.used + 2052 - addr).toNat = _
  rw [UInt32.toNat_sub_of_le _ _ (UInt32.le_iff_toNat_le.2 (by omega)), hstop]
  omega

/-- **The firmware and the kernel agree on the places.** -/
theorem vringInit_places :
    (vringInit addr notify mem).1.extents = place addr.toNat vringRegions ∧
      addr.toNat + (vringInit addr notify mem).1.vringLen.toNat = stop addr.toNat vringRegions := by
  constructor
  · unfold VringPtrs.extents
    rw [place_vringRegions, toNat_avail notify mem h, toNat_used notify mem h]
    rfl
  · rw [stop_vringRegions]
    exact toNat_vringLen notify mem h

end Places

/-- The layout of a vring at the address `base`. -/
structure KernelLayout (base : UInt32) (vr : VringPtrs) : Prop where
  desc : vr.desc = base
  avail : vr.avail.toNat = base.toNat + vringSize * 16
  /-- the least boundary that is not below the end of the available ring -/
  used : IsLeast {m | 4096 ∣ m ∧ vr.avail.toNat + sizeofVringAvail ≤ m} vr.used.toNat
  disjoint : vr.extents.Pairwise fun e e' => Disjoint e.bytes e'.bytes
  contained : ∀ e ∈ vr.extents, e.bytes ⊆ Set.Ico base.toNat (base.toNat + vr.vringLen.toNat)
  padding : vr.used.toNat - (vr.avail.toNat + sizeofVringAvail) < 4096

/-- **`vring_init` computes the layout of the kernel**, for every address at which the vring ends below
2³². -/
theorem vringInit_layout (addr : UInt32) (notify : Bool) (mem : Mem)
    (h : stop addr.toNat vringRegions < 2 ^ 32) : KernelLayout addr (vringInit addr notify mem).1 := by
  have hpos : 0 < 4096 := Nat.succ_pos _
  obtain ⟨hplaces, hlen⟩ := vringInit_places notify mem h
  have havail := toNat_avail notify mem h
  have hused := toNat_used notify mem h
  have hend : (vringInit addr notify mem).1.avail.toNat + sizeofVringAvail = availEnd addr.toNat := by
    rw [havail]
    rfl
  refine ⟨rfl, havail, ?_, ?_, ?_, ?_⟩
  · rw [hend, hused]
    exact isLeast_alignUp hpos _
  · rw [hplaces]
    exact pairwise_place _ _
  · rw [hplaces, hlen]
    exact fun e he => bytes_subset_of_mem he
  · rw [hend, hused]
    have hlt := alignUp_lt hpos (availEnd addr.toNat)
    omega

/-- The available ring ends at a boundary, and the used ring follows without padding. -/
theorem aligned_layout : stop (3578 : UInt32).toNat vringRegions < 2 ^ 32 ∧
    KernelLayout 3578 (vringInit 3578 true ones).1 ∧ (vringInit 3578 true ones).1.used = 8192 := by
  have h : stop (3578 : UInt32).toNat vringRegions < 2 ^ 32 := by decide
  exact ⟨h, vringInit_layout 3578 true ones h, by decide⟩

/-! ### The structures -/

/-- The place of the used ring, computed without an upper bound. -/
lemma usedAt_eq (base : ℕ) : usedAt base = alignUp 4096 (availEnd base) := by
  have hpos : 0 < 4096 := Nat.succ_pos _
  have hend : availAt base + (6 + 2 * vringSize) = availEnd base := rfl
  have hlow := and_eq_zero_iff (availEnd base)
  unfold usedAt
  dsimp only
  rw [hend]
  by_cases hd : 4096 ∣ availEnd base
  · rw [if_neg (not_not.2 (hlow.2 hd)), alignUp_of_dvd hpos hd]
  · rw [if_pos (hlow.not.2 hd), alignUp_of_not_dvd hpos hd, Nat.shiftRight_eq_div_pow,
      Nat.shiftLeft_eq]
    omega

/-- **On the bytes, `vring_init` does what it does on the structures.** -/
theorem view_vringInit (addr : UInt32) (notify : Bool) (mem : Mem) (availTail : UInt16) (notify₀ : Bool)
    (h : stop addr.toNat vringRegions < 2 ^ 32) :
    view addr.toNat (vringInit addr notify mem).1.availTail notify (vringInit addr notify mem).2 =
      VirtioRing.vringInit (view addr.toNat availTail notify₀ mem) notify := by
  have hmem : (vringInit addr notify mem).2 = store16 (usedAt addr.toNat) 0 mem := by
    rw [usedAt_eq, ← toNat_used notify mem h]
    rfl
  have hbefore : ∀ b < usedAt addr.toNat, store16 (usedAt addr.toNat) 0 mem b = mem b :=
    fun b hb => store_of_outside (.inl hb)
  have hle := availAt_le_usedAt addr.toNat
  rw [hmem]
  refine vring_ext (funext fun i => desc_congr fun b _ hb => hbefore b ?_)
    (avail_congr fun b _ hb => hbefore b (by omega)) ?_ rfl rfl
  · have hs : vringSize = 256 := rfl
    simp only [descAt, availAt] at hb hle
    omega
  · simp only [view, VirtioRing.vringInit, VringUsed.mk.injEq, elemAt, load16_store16, true_and]
    refine ⟨load16_store16_of_ne _ _ (by omega), funext fun j => ?_⟩
    rw [load32_store16_of_ne _ _ (by omega), load32_store16_of_ne _ _ (by omega)]

end CfgMgmt.Firmware.VringInit
