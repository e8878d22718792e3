import CfgMgmt.Lib.Ring

/-!
# The vring of the bare metal side (`virtio_ring.c`)

A vring is a table of buffer descriptors, an available ring written by the kernel and a used ring
written by the firmware.  The ring indices are free running `uint16_t`s, the slot of an index is the
index modulo `VRING_SIZE`.
-/

namespace CfgMgmt.Firmware.VirtioRing

open CfgMgmt.Lib.Ring

abbrev vringSize : ℕ := 256

instance : NeZero vringSize := ⟨by decide⟩

def vringDescFNext : UInt16 := 1

def vringAvailFNoInterrupt : UInt16 := 1

/-- `struct vring_desc`. -/
structure VringDesc where
  addr : UInt32
  addrHi : UInt32
  len : UInt32
  flags : UInt16
  next : UInt16
  deriving DecidableEq

/-- `struct vring_used_elem`. -/
structure VringUsedElem where
  id : UInt32
  len : UInt32
  deriving DecidableEq

/-- `struct vring_used`. -/
structure VringUsed where
  flags : UInt16
  idx : UInt16
  ring : Fin vringSize → VringUsedElem

/-- `struct vring_avail`. -/
structure VringAvail where
  flags : UInt16
  availIdx : UInt16
  ring : Fin vringSize → UInt16
  usedEventIdx : UInt16

/-- `struct vring`: the three regions shared with the kernel, the private tail of the available ring,
and whether a `notify` handler is set. -/
structure Vring where
  desc : Fin vringSize → VringDesc
  avail : VringAvail
  used : VringUsed
  availTail : UInt16
  notify : Bool

/-- A vring whose memory the kernel has just allocated. -/
def Vring.zero : Vring where
  desc _ := ⟨0, 0, 0, 0, 0⟩
  avail := ⟨0, 0, fun _ => 0, 0⟩
  used := ⟨0, 0, fun _ => ⟨0, 0⟩⟩
  availTail := 0
  notify := false

/-- `vring_init`, for a vring at the given place. -/
def vringInit (vr : Vring) (notify : Bool) : Vring :=
  { vr with used := { vr.used with flags := 0 }, availTail := 0, notify }

/-- `vring_get_buf`: the next buffer sent by the kernel, `none` for the `-1` of the source. -/
def vringGetBuf (vr : Vring) : Option UInt16 × Vring :=
  let krnlAvailIdx := vr.avail.availIdx
  if krnlAvailIdx = vr.availTail then
    (none, vr)
  else
    let aIndex := slot vringSize vr.availTail.toNat
    let availableDescInd := vr.avail.ring aIndex
    (some availableDescInd, { vr with availTail := vr.availTail + 1 })

def vringAvailable (vr : Vring) : ℕ :=
  if vr.avail.availIdx = vr.availTail then 0 else 1

/-- The two writes of `vring_publish_buf` to `desc[idx]`: clear the next flag and the next index.
The descriptor after the last one lies on the available ring, which follows the table without a gap:
its `flags` and `next` are the entries 4 and 5 of that ring. -/
def clearDesc (vr : Vring) (idx : UInt16) : Vring :=
  if h : idx.toNat < vringSize then
    let d := vr.desc ⟨idx.toNat, h⟩
    { vr with
      desc := Function.update vr.desc ⟨idx.toNat, h⟩
        { d with flags := d.flags &&& ~~~vringDescFNext, next := 0 } }
  else
    let ring := Function.update vr.avail.ring 4 (vr.avail.ring 4 &&& ~~~vringDescFNext)
    { vr with avail := { vr.avail with ring := Function.update ring 5 0 } }

/-- Put an entry into the used ring and move the used index. -/
def pushUsed (vr : Vring) (e : VringUsedElem) : Vring :=
  let usedIdx := slot vringSize vr.used.idx.toNat
  { vr with
    used := { vr.used with
      ring := Function.update vr.used.ring usedIdx e
      idx := vr.used.idx + 1 } }

/-- `vring_publish_buf`: the vring afterwards, and whether `notify` was called. -/
def vringPublishBuf (vr : Vring) (idx : UInt16) (len : UInt32) (kick : Bool) : Vring × Bool :=
  if vringSize < idx.toNat then
    (vr, false)
  else
    let vr := pushUsed (clearDesc vr idx) ⟨idx.toUInt32, len⟩
    -- the mask of the source is `1 << VRING_AVAIL_F_NO_INTERRUPT`
    (vr, kick && vr.notify && vr.avail.flags &&& (1 <<< vringAvailFNoInterrupt) == 0)

/-- The kernel offers a descriptor: it puts it into the available ring and then moves the available
index. -/
def offerDesc (vr : Vring) (d : UInt16) : Vring :=
  let head := slot vringSize vr.avail.availIdx.toNat
  { vr with
    avail := { vr.avail with
      ring := Function.update vr.avail.ring head d
      availIdx := vr.avail.availIdx + 1 } }

/-! ### What a call changes -/

section Lemmas

variable (vr : Vring)

lemma vringGetBuf_of_eq (h : vr.avail.availIdx = vr.availTail) : vringGetBuf vr = (none, vr) := by
  simp [vringGetBuf, h]

lemma vringGetBuf_of_ne (h : vr.avail.availIdx ≠ vr.availTail) :
    vringGetBuf vr = (some (vr.avail.ring (slot vringSize vr.availTail.toNat)),
      { vr with availTail := vr.availTail + 1 }) := by
  simp [vringGetBuf, h]

lemma vringAvailable_eq_one_iff : vringAvailable vr = 1 ↔ vr.avail.availIdx ≠ vr.availTail := by
  unfold vringAvailable
  split <;> simp_all

/-- `vring_available` announces exactly what `vring_get_buf` delivers. -/
theorem vringAvailable_iff_isSome : vringAvailable vr = 1 ↔ (vringGetBuf vr).1.isSome := by
  rw [vringAvailable_eq_one_iff]
  by_cases h : vr.avail.availIdx = vr.availTail
  · simp [vringGetBuf_of_eq vr h, h]
  · simp [vringGetBuf_of_ne vr h, h]

section Publish

variable {vr} {idx : UInt16} (len : UInt32) (kick : Bool)

lemma clearDesc_of_lt (h : idx.toNat < vringSize) :
    (clearDesc vr idx).avail = vr.avail ∧ (clearDesc vr idx).used = vr.used ∧
      (clearDesc vr idx).availTail = vr.availTail ∧ (clearDesc vr idx).notify = vr.notify := by
  simp [clearDesc, h]

lemma vringPublishBuf_avail (h : idx.toNat < vringSize) :
    (vringPublishBuf vr idx len kick).1.avail = vr.avail := by
  simp [vringPublishBuf, h.not_gt, pushUsed, clearDesc_of_lt h]

lemma vringPublishBuf_availTail (h : idx.toNat < vringSize) :
    (vringPublishBuf vr idx len kick).1.availTail = vr.availTail := by
  simp [vringPublishBuf, h.not_gt, pushUsed, clearDesc_of_lt h]

lemma vringPublishBuf_idx (h : idx.toNat < vringSize) :
    (vringPublishBuf vr idx len kick).1.used.idx = vr.used.idx + 1 := by
  simp [vringPublishBuf, h.not_gt, pushUsed, clearDesc_of_lt h]

lemma vringPublishBuf_ring (h : idx.toNat < vringSize) :
    (vringPublishBuf vr idx len kick).1.used.ring =
      Function.update vr.used.ring (slot vringSize vr.used.idx.toNat) ⟨idx.toUInt32, len⟩ := by
  simp [vringPublishBuf, h.not_gt, pushUsed, clearDesc_of_lt h]

end Publish

end Lemmas

end CfgMgmt.Firmware.VirtioRing
