import Mathlib.Data.List.Perm.Basic
import CfgMgmt.Firmware.VirtioRing
import CfgMgmt.Lib.Machine

/-!
# Descriptor circulation

The kernel and the firmware pass the `VRING_SIZE` descriptors of a vring to each other: the kernel
offers a descriptor on the available ring, the firmware gets it, publishes it on the used ring, and
the kernel reclaims it.  `Circulates` is what holds after every interleaving of these steps: both
rings are FIFO queues that lose and repeat nothing, and every descriptor is in exactly one place.
-/

namespace CfgMgmt.Firmware.Circulation

open CfgMgmt.Lib.Ring CfgMgmt.Lib.Machine CfgMgmt.Firmware.VirtioRing

/-- A vring and its two users.  The last four fields are the histories of the two queues. -/
structure Circ where
  vr : Vring
  /-- the used index up to which the kernel has reclaimed descriptors -/
  lastUsed : UInt16
  /-- the descriptors owned by the kernel -/
  kernel : List UInt16
  /-- the descriptors the firmware got and has not published -/
  firmware : List UInt16
  offered : List UInt16
  got : List UInt16
  published : List VringUsedElem
  reclaimed : List VringUsedElem

inductive Event
  | offer (d : UInt16)
  | reclaim
  | getBuf
  | publishBuf (d : UInt16) (len : UInt32) (kick : Bool)

/-- One step of the kernel or of the firmware.  The kernel offers only what it owns, the firmware
publishes only what it got. -/
def step (s : Circ) : Event → Option Circ
  | .offer d =>
    if d ∈ s.kernel then
      some { s with
        vr := offerDesc s.vr d, kernel := s.kernel.erase d, offered := s.offered ++ [d] }
    else none
  | .reclaim =>
    if s.vr.used.idx = s.lastUsed then
      some s
    else
      let e := s.vr.used.ring (slot vringSize s.lastUsed.toNat)
      some { s with
        lastUsed := s.lastUsed + 1, kernel := e.id.toUInt16 :: s.kernel,
        reclaimed := s.reclaimed ++ [e] }
  | .getBuf =>
    match vringGetBuf s.vr with
    | (none, vr) => some { s with vr }
    | (some d, vr) => some { s with vr, firmware := d :: s.firmware, got := s.got ++ [d] }
  | .publishBuf d len kick =>
    if d ∈ s.firmware then
      some { s with
        vr := (vringPublishBuf s.vr d len kick).1, firmware := s.firmware.erase d,
        published := s.published ++ [⟨d.toUInt32, len⟩] }
    else none

/-- The indices of the descriptors of a vring. -/
def allDescs : List UInt16 := (List.range vringSize).map UInt16.ofNat

/-- All indices are 0 and the kernel owns all descriptors; the rest of the vring is arbitrary. -/
def start (vr : Vring) : Circ where
  vr := { vr with
    avail := { vr.avail with availIdx := 0 }, used := { vr.used with idx := 0 }, availTail := 0 }
  lastUsed := 0
  kernel := allDescs
  firmware := []
  offered := []
  got := []
  published := []
  reclaimed := []

/-- The entries of the available ring the firmware has not got yet. -/
def unreadAvail (vr : Vring) : List UInt16 :=
  unread vringSize UInt16.size vr.avail.ring vr.availTail.toNat vr.avail.availIdx.toNat

/-- The entries of the used ring the kernel has not reclaimed yet. -/
def unreadUsed (s : Circ) : List VringUsedElem :=
  unread vringSize UInt16.size s.vr.used.ring s.lastUsed.toNat s.vr.used.idx.toNat

/-- What every interleaving keeps. -/
structure Circulates (s : Circ) : Prop where
  /-- the firmware gets the offered descriptors in order, each exactly once -/
  availFifo : s.offered = s.got ++ unreadAvail s.vr
  /-- the kernel reclaims the published entries in order, each exactly once -/
  usedFifo : s.published = s.reclaimed ++ unreadUsed s
  /-- every descriptor is in exactly one place -/
  places : (s.kernel ++ unreadAvail s.vr ++ s.firmware ++
    (unreadUsed s).map fun e => e.id.toUInt16).Perm allDescs
  /-- the next offer does not overwrite an unread slot -/
  offerFresh : s.kernel ≠ [] → ∀ k < (unreadAvail s.vr).length,
    slot vringSize (s.vr.availTail.toNat + k) ≠ slot vringSize s.vr.avail.availIdx.toNat
  /-- the next publication does not overwrite an unread slot -/
  publishFresh : s.firmware ≠ [] → ∀ k < (unreadUsed s).length,
    slot vringSize (s.lastUsed.toNat + k) ≠ slot vringSize s.vr.used.idx.toNat
  /-- `vring_available` returns 1 exactly when `vring_get_buf` returns a descriptor -/
  available : vringAvailable s.vr = 1 ↔ (vringGetBuf s.vr).1.isSome

/-! ### The places of the descriptors -/

lemma length_allDescs : allDescs.length = vringSize := by simp [allDescs]

lemma toNat_lt_of_mem {d : UInt16} (h : d ∈ allDescs) : d.toNat < vringSize := by
  obtain ⟨i, hi, rfl⟩ := List.mem_map.1 h
  have hi := List.mem_range.1 hi
  rw [UInt16.toNat_ofNat_of_lt' (lt_trans hi (by decide))]
  exact hi

/-- The three facts a step has to keep; the rest of `Circulates` follows from them. -/
structure Inv (s : Circ) : Prop where
  availFifo : s.offered = s.got ++ unreadAvail s.vr
  usedFifo : s.published = s.reclaimed ++ unreadUsed s
  places : (s.kernel ++ unreadAvail s.vr ++ s.firmware ++
    (unreadUsed s).map fun e => e.id.toUInt16).Perm allDescs

section Inv

variable {s : Circ} (h : Inv s)
include h

lemma Inv.length : s.kernel.length + (unreadAvail s.vr).length + s.firmware.length +
    (unreadUsed s).length = vringSize := by
  have := h.places.length_eq
  simp only [List.length_append, List.length_map, length_allDescs] at this
  exact this

lemma Inv.firmware_lt {d : UInt16} (hd : d ∈ s.firmware) : d.toNat < vringSize :=
  toNat_lt_of_mem (h.places.subset (by simp [hd]))

/-- As long as the kernel owns a descriptor the available ring is not full. -/
lemma Inv.avail_free (hk : s.kernel ≠ []) :
    pending UInt16.size s.vr.availTail.toNat s.vr.avail.availIdx.toNat < vringSize := by
  have h1 := h.length
  have h2 := List.length_pos_iff.2 hk
  simp only [unreadAvail, length_unread] at h1
  omega

/-- As long as the firmware holds a descriptor the used ring is not full. -/
lemma Inv.used_free (hf : s.firmware ≠ []) :
    pending UInt16.size s.lastUsed.toNat s.vr.used.idx.toNat < vringSize := by
  have h1 := h.length
  have h2 := List.length_pos_iff.2 hf
  simp only [unreadUsed, length_unread] at h1
  omega

theorem Inv.circulates : Circulates s where
  availFifo := h.availFifo
  usedFifo := h.usedFifo
  places := h.places
  offerFresh hk k hlt := by
    rw [unreadAvail, length_unread] at hlt
    exact slot_head_fresh (by decide) s.vr.availTail.toNat_lt_size s.vr.avail.availIdx.toNat_lt_size
      (h.avail_free hk) hlt
  publishFresh hf k hlt := by
    rw [unreadUsed, length_unread] at hlt
    exact slot_head_fresh (by decide) s.lastUsed.toNat_lt_size s.vr.used.idx.toNat_lt_size
      (h.used_free hf) hlt
  available := vringAvailable_iff_isSome s.vr

end Inv

/-! ### One step -/

@[simp] lemma offerDesc_used (vr : Vring) (d : UInt16) : (offerDesc vr d).used = vr.used := rfl

lemma toNat_succ (i : UInt16) : (i + 1).toNat = (i.toNat + 1) % UInt16.size := by
  rw [UInt16.toNat_add]; rfl

lemma unreadAvail_offer (vr : Vring) (d : UInt16)
    (hfree : pending UInt16.size vr.availTail.toNat vr.avail.availIdx.toNat < vringSize) :
    unreadAvail (offerDesc vr d) = unreadAvail vr ++ [d] := by
  simp only [unreadAvail, offerDesc, toNat_succ]
  exact unread_push (by decide) (by decide) vr.availTail.toNat_lt_size
    vr.avail.availIdx.toNat_lt_size _ _ hfree

lemma unreadAvail_get (vr : Vring) (h : vr.avail.availIdx ≠ vr.availTail) :
    unreadAvail vr = vr.avail.ring (slot vringSize vr.availTail.toNat) ::
      unreadAvail { vr with availTail := vr.availTail + 1 } := by
  simp only [unreadAvail, toNat_succ]
  exact unread_pop (by decide) vr.availTail.toNat_lt_size vr.avail.availIdx.toNat_lt_size _
    (by rwa [Ne, UInt16.toNat_inj])

lemma unreadUsed_reclaim (s : Circ) (h : s.vr.used.idx ≠ s.lastUsed) :
    unreadUsed s = s.vr.used.ring (slot vringSize s.lastUsed.toNat) ::
      unreadUsed { s with lastUsed := s.lastUsed + 1 } := by
  simp only [unreadUsed, toNat_succ]
  exact unread_pop (by decide) s.lastUsed.toNat_lt_size s.vr.used.idx.toNat_lt_size _
    (by rwa [Ne, UInt16.toNat_inj])

lemma unreadUsed_publish (s : Circ) {d : UInt16} (len : UInt32) (kick : Bool)
    (hd : d.toNat < vringSize)
    (hfree : pending UInt16.size s.lastUsed.toNat s.vr.used.idx.toNat < vringSize) :
    unreadUsed { s with vr := (vringPublishBuf s.vr d len kick).1 } =
      unreadUsed s ++ [⟨d.toUInt32, len⟩] := by
  simp only [unreadUsed, vringPublishBuf_ring len kick hd, vringPublishBuf_idx len kick hd,
    toNat_succ]
  exact unread_push (by decide) (by decide) s.lastUsed.toNat_lt_size s.vr.used.idx.toNat_lt_size
    _ _ hfree

lemma unreadAvail_publish (vr : Vring) {d : UInt16} (len : UInt32) (kick : Bool)
    (hd : d.toNat < vringSize) :
    unreadAvail (vringPublishBuf vr d len kick).1 = unreadAvail vr := by
  simp only [unreadAvail, vringPublishBuf_avail len kick hd, vringPublishBuf_availTail len kick hd]

theorem inv_offer {s : Circ} {d : UInt16} (h : Inv s) (hd : d ∈ s.kernel) :
    Inv { s with
      vr := offerDesc s.vr d, kernel := s.kernel.erase d, offered := s.offered ++ [d] } := by
  have hu := unreadAvail_offer s.vr d (h.avail_free (List.ne_nil_of_mem hd))
  refine ⟨?_, h.usedFifo, ?_⟩
  · simp only [hu, h.availFifo, List.append_assoc]
  · refine List.Perm.trans ?_ h.places
    have hk : (s.kernel).Perm (d :: s.kernel.erase d) := List.perm_cons_erase hd
    rw [List.perm_iff_count] at hk ⊢
    intro a
    have := hk a
    simp only [hu, unreadUsed, offerDesc_used, List.count_append, List.count_cons,
      List.count_nil] at this ⊢
    omega

theorem inv_reclaim {s : Circ} (h : Inv s) (hne : s.vr.used.idx ≠ s.lastUsed) :
    Inv { s with
      lastUsed := s.lastUsed + 1
      kernel := (s.vr.used.ring (slot vringSize s.lastUsed.toNat)).id.toUInt16 :: s.kernel
      reclaimed := s.reclaimed ++ [s.vr.used.ring (slot vringSize s.lastUsed.toNat)] } := by
  have hu := unreadUsed_reclaim s hne
  refine ⟨h.availFifo, ?_, ?_⟩
  · rw [h.usedFifo, hu]
    simp [unreadUsed]
  · refine List.Perm.trans ?_ h.places
    rw [hu, List.perm_iff_count]
    intro a
    simp only [unreadUsed, List.count_append, List.count_cons, List.map_cons]
    omega

theorem inv_get {s : Circ} (h : Inv s) (hne : s.vr.avail.availIdx ≠ s.vr.availTail) :
    Inv { s with
      vr := { s.vr with availTail := s.vr.availTail + 1 }
      firmware := s.vr.avail.ring (slot vringSize s.vr.availTail.toNat) :: s.firmware
      got := s.got ++ [s.vr.avail.ring (slot vringSize s.vr.availTail.toNat)] } := by
  have hu := unreadAvail_get s.vr hne
  refine ⟨?_, h.usedFifo, ?_⟩
  · rw [h.availFifo, hu]
    simp
  · refine List.Perm.trans ?_ h.places
    rw [hu, List.perm_iff_count]
    intro a
    simp only [unreadUsed, List.count_append, List.count_cons]
    omega

theorem inv_publish {s : Circ} {d : UInt16} (len : UInt32) (kick : Bool) (h : Inv s)
    (hd : d ∈ s.firmware) :
    Inv { s with
      vr := (vringPublishBuf s.vr d len kick).1, firmware := s.firmware.erase d
      published := s.published ++ [⟨d.toUInt32, len⟩] } := by
  have hlt := h.firmware_lt hd
  have hu := unreadUsed_publish s len kick hlt (h.used_free (List.ne_nil_of_mem hd))
  have ha := unreadAvail_publish s.vr len kick hlt
  refine ⟨?_, ?_, ?_⟩
  · rw [ha]
    exact h.availFifo
  · rw [h.usedFifo]
    simp only [unreadUsed] at hu ⊢
    rw [hu, List.append_assoc]
  · refine List.Perm.trans ?_ h.places
    have hk : (s.firmware).Perm (d :: s.firmware.erase d) := List.perm_cons_erase hd
    rw [List.perm_iff_count] at hk ⊢
    intro a
    have := hk a
    simp only [unreadUsed] at hu ⊢
    simp only [hu, ha, List.map_append, List.count_append, List.map_cons, List.map_nil,
      List.count_cons, List.count_nil, UInt16.toUInt16_toUInt32] at this ⊢
    omega

theorem inv_step (s : Circ) (e : Event) (s' : Circ) (h : Inv s) (hs : step s e = some s') :
    Inv s' := by
  cases e with
  | offer d =>
    simp only [step, Option.ite_none_right_eq_some, Option.some.injEq] at hs
    obtain ⟨hd, rfl⟩ := hs
    exact inv_offer h hd
  | reclaim =>
    by_cases he : s.vr.used.idx = s.lastUsed
    · simp only [step, he, if_true, Option.some.injEq] at hs
      exact hs ▸ h
    · simp only [step, he, if_false, Option.some.injEq] at hs
      exact hs ▸ inv_reclaim h he
  | getBuf =>
    by_cases he : s.vr.avail.availIdx = s.vr.availTail
    · simp only [step, vringGetBuf_of_eq s.vr he, Option.some.injEq] at hs
      exact hs ▸ h
    · simp only [step, vringGetBuf_of_ne s.vr he, Option.some.injEq] at hs
      exact hs ▸ inv_get h he
  | publishBuf d len kick =>
    simp only [step, Option.ite_none_right_eq_some, Option.some.injEq] at hs
    obtain ⟨hd, rfl⟩ := hs
    exact inv_publish len kick h hd

/-! ### Every run -/

lemma inv_start (vr : Vring) : Inv (start vr) := by
  have h1 : unreadAvail (start vr).vr = [] := unread_self _ (UInt16.toNat_lt_size 0)
  have h2 : unreadUsed (start vr) = [] := unread_self _ (UInt16.toNat_lt_size 0)
  refine ⟨?_, ?_, ?_⟩
  · rw [h1]; rfl
  · rw [h2]; rfl
  · rw [h1, h2]; simp [start]

/-- **The descriptors of a vring circulate**: after every interleaving, of any length, of the steps
of the kernel and of the firmware. -/
theorem circulates_run (vr : Vring) (es : List Event) : States step Circulates (start vr) es :=
  fun _ _ _ hr => (run_invariant inv_step (inv_start vr) hr).circulates

end CfgMgmt.Firmware.Circulation
