import CfgMgmt.Firmware.VirtioRing
import CfgMgmt.Lib.Memory

/-!
# The bytes of a vring

`vring_init` places the three regions of a vring behind each other: the available ring follows the
descriptors without a gap, the used ring begins on the next page.  `view` reads the structures out of the
memory; on the bytes, `vring_publish_buf` does what it does on the structures (`view_vringPublishBuf`).
So the descriptor behind the last one is a part of the available ring.
-/

namespace CfgMgmt.Firmware.VringLayout

open CfgMgmt.Lib.Memory CfgMgmt.Lib.Ring CfgMgmt.Firmware.VirtioRing

/-! ### Places -/

/-- `vr->desc + i`, for the vring at the address `addr`. -/
def descAt (addr i : ℕ) : ℕ := addr + 16 * i

/-- `vr->avail`. -/
def availAt (addr : ℕ) : ℕ := addr + vringSize * 16

/-- `vr->used`, behind the padding. -/
def usedAt (addr : ℕ) : ℕ :=
  let addr := availAt addr + (6 + 2 * vringSize)
  if addr &&& 0xFFF ≠ 0 then ((addr >>> 12) + 1) <<< 12 else addr

/-- `vr->used->ring + i`. -/
def elemAt (addr i : ℕ) : ℕ := usedAt addr + 4 + 8 * i

lemma availAt_le_usedAt (addr : ℕ) : availAt addr + 518 ≤ usedAt addr := by
  have h518 : 6 + 2 * vringSize = 518 := rfl
  unfold usedAt
  dsimp only
  rw [h518]
  split
  · rw [Nat.shiftLeft_eq, Nat.shiftRight_eq_div_pow]
    omega
  · exact le_rfl

/-- The structures in the memory, with the private part of `struct vring`. -/
def view (addr : ℕ) (availTail : UInt16) (notify : Bool) (mem : Mem) : Vring where
  desc i := ⟨load32 mem (descAt addr i), load32 mem (descAt addr i + 4), load32 mem (descAt addr i + 8),
    load16 mem (descAt addr i + 12), load16 mem (descAt addr i + 14)⟩
  avail := ⟨load16 mem (availAt addr), load16 mem (availAt addr + 2),
    fun j => load16 mem (availAt addr + 4 + 2 * j), load16 mem (availAt addr + 516)⟩
  used := ⟨load16 mem (usedAt addr), load16 mem (usedAt addr + 2),
    fun j => ⟨load32 mem (elemAt addr j), load32 mem (elemAt addr j + 4)⟩⟩
  availTail
  notify

/-! ### The function on the bytes -/

/-- The two writes to `desc[idx]`. -/
def clearDesc (addr : ℕ) (idx : UInt16) (mem : Mem) : Mem :=
  let desc := descAt addr idx.toNat
  let mem := store16 (desc + 12) (load16 mem (desc + 12) &&& ~~~vringDescFNext) mem
  store16 (desc + 14) 0 mem

/-- The three writes to the used ring. -/
def pushUsed (addr : ℕ) (e : VringUsedElem) (mem : Mem) : Mem :=
  let elem := elemAt addr (load16 mem (usedAt addr + 2) % UInt16.ofNat vringSize).toNat
  let mem := store32 elem e.id mem
  let mem := store32 (elem + 4) e.len mem
  store16 (usedAt addr + 2) (load16 mem (usedAt addr + 2) + 1) mem

/-- `vring_publish_buf`: the memory afterwards, and whether `notify` was called. -/
def vringPublishBuf (addr : ℕ) (notify : Bool) (idx : UInt16) (len : UInt32) (kick : Bool) (mem : Mem) :
    Mem × Bool :=
  if vringSize < idx.toNat then
    (mem, false)
  else
    let mem := pushUsed addr ⟨idx.toUInt32, len⟩ (clearDesc addr idx mem)
    (mem, kick && notify && load16 mem (availAt addr) &&& (1 <<< vringAvailFNoInterrupt) == 0)

/-! ### The bytes and the structures -/

section View

variable {addr : ℕ} {availTail : UInt16} {notify : Bool} {mem mem' : Mem} {idx : UInt16}

lemma vring_ext {vr vr' : Vring} (hd : vr.desc = vr'.desc) (ha : vr.avail = vr'.avail)
    (hu : vr.used = vr'.used) (ht : vr.availTail = vr'.availTail) (hn : vr.notify = vr'.notify) :
    vr = vr' := by
  cases vr
  cases vr'
  rw [Vring.mk.injEq]
  exact ⟨hd, ha, hu, ht, hn⟩

lemma desc_congr {i : Fin vringSize} (h : ∀ b, descAt addr i ≤ b → b < descAt addr i + 16 → mem' b = mem b) :
    (view addr availTail notify mem').desc i = (view addr availTail notify mem).desc i := by
  simp only [view, VringDesc.mk.injEq]
  refine ⟨load32_congr fun b h1 h2 => ?_, load32_congr fun b h1 h2 => ?_, load32_congr fun b h1 h2 => ?_,
    load16_congr fun b h1 h2 => ?_, load16_congr fun b h1 h2 => ?_⟩
  all_goals exact h b (by omega) (by omega)

lemma avail_congr (h : ∀ b, availAt addr ≤ b → b < availAt addr + 518 → mem' b = mem b) :
    (view addr availTail notify mem').avail = (view addr availTail notify mem).avail := by
  have hs : vringSize = 256 := rfl
  simp only [view, VringAvail.mk.injEq]
  refine ⟨load16_congr fun b h1 h2 => ?_, load16_congr fun b h1 h2 => ?_, funext fun j =>
    load16_congr fun b h1 h2 => ?_, load16_congr fun b h1 h2 => ?_⟩
  all_goals exact h b (by omega) (by omega)

lemma used_congr (h : ∀ b, usedAt addr ≤ b → mem' b = mem b) :
    (view addr availTail notify mem').used = (view addr availTail notify mem).used := by
  simp only [view, VringUsed.mk.injEq, elemAt]
  refine ⟨load16_congr fun b h1 h2 => ?_, load16_congr fun b h1 h2 => ?_, funext fun j => ?_⟩
  · exact h b h1
  · exact h b (by omega)
  · rw [VringUsedElem.mk.injEq]
    refine ⟨load32_congr fun b h1 h2 => ?_, load32_congr fun b h1 h2 => ?_⟩
    all_goals exact h b (by omega)

/-! #### What the writes change -/

lemma clearDesc_of_outside {b : ℕ} (h : b < descAt addr idx.toNat + 12 ∨ descAt addr idx.toNat + 16 ≤ b) :
    clearDesc addr idx mem b = mem b := by
  unfold clearDesc store16
  rw [store_of_outside (by omega), store_of_outside (by omega)]

/-- The place of the next element of the used ring. -/
def nextElem (addr : ℕ) (mem : Mem) : ℕ :=
  elemAt addr (load16 mem (usedAt addr + 2) % UInt16.ofNat vringSize).toNat

/-- The writes to the used ring change one element and the index. -/
lemma pushUsed_of_outside {e : VringUsedElem} {b : ℕ}
    (h : b < nextElem addr mem ∨ nextElem addr mem + 8 ≤ b)
    (h' : b < usedAt addr + 2 ∨ usedAt addr + 4 ≤ b) : pushUsed addr e mem b = mem b := by
  unfold nextElem at h
  unfold pushUsed store16 store32
  rw [store_of_outside (by omega), store_of_outside (by omega), store_of_outside (by omega)]

lemma nextElem_eq (addr : ℕ) (availTail : UInt16) (notify : Bool) (mem : Mem) : nextElem addr mem =
    elemAt addr (slot vringSize (view addr availTail notify mem).used.idx.toNat) := by
  have h : (UInt16.ofNat vringSize).toNat = 256 := rfl
  unfold nextElem
  rw [UInt16.toNat_mod, h]
  rfl

/-! #### The structures after the writes -/

section Clear

variable (availTail notify mem)

lemma used_clearDesc (hidx : idx.toNat ≤ vringSize) :
    (view addr availTail notify (clearDesc addr idx mem)).used = (view addr availTail notify mem).used := by
  refine used_congr fun b hb => clearDesc_of_outside ?_
  have hu := availAt_le_usedAt addr
  have hs : vringSize = 256 := rfl
  simp only [descAt, availAt] at hu ⊢
  omega

lemma desc_clearDesc_of_ne {j : Fin vringSize} (hj : (j : ℕ) ≠ idx.toNat) :
    (view addr availTail notify (clearDesc addr idx mem)).desc j =
      (view addr availTail notify mem).desc j := by
  refine desc_congr fun b h1 h2 => clearDesc_of_outside ?_
  simp only [descAt] at h1 h2 ⊢
  omega

lemma avail_clearDesc (hidx : idx.toNat < vringSize) :
    (view addr availTail notify (clearDesc addr idx mem)).avail =
      (view addr availTail notify mem).avail := by
  refine avail_congr fun b h1 h2 => clearDesc_of_outside ?_
  simp only [availAt, descAt] at h1 h2 ⊢
  omega

lemma view_clearDesc (hidx : idx.toNat ≤ vringSize) :
    view addr availTail notify (clearDesc addr idx mem) =
      VirtioRing.clearDesc (view addr availTail notify mem) idx := by
  unfold VirtioRing.clearDesc
  split
  · rename_i h
    refine vring_ext (funext fun j => ?_) (avail_clearDesc availTail notify mem h)
      (used_clearDesc availTail notify mem hidx) rfl rfl
    dsimp only
    by_cases hj : j = ⟨idx.toNat, h⟩
    · subst hj
      rw [Function.update_self]
      simp only [view, clearDesc, VringDesc.mk.injEq, load16_store16]
      simp (disch := omega) [load16_store16_of_ne, load32_store16_of_ne]
    · rw [Function.update_of_ne hj]
      exact desc_clearDesc_of_ne availTail notify mem fun e => hj (Fin.ext e)
  · -- the bytes 12 to 15 of the available ring are its entries 4 and 5
    rename_i h
    have hs : vringSize = 256 := rfl
    have h256 : idx.toNat = 256 := by omega
    refine vring_ext (funext fun j => desc_clearDesc_of_ne availTail notify mem (by omega)) ?_
      (used_clearDesc availTail notify mem hidx) rfl rfl
    simp only [view, clearDesc, h256, descAt, availAt, VringAvail.mk.injEq]
    simp (disch := omega) only [load16_store16_of_ne, true_and, and_true]
    funext j
    by_cases h5 : j = 5
    · subst h5
      rw [Function.update_self]
      exact load16_store16 ..
    rw [Function.update_of_ne h5]
    have h5' : (j : ℕ) ≠ 5 := fun e => h5 (Fin.ext e)
    rw [load16_store16_of_ne _ _ (by omega)]
    by_cases h4 : j = 4
    · subst h4
      rw [Function.update_self]
      exact load16_store16 ..
    rw [Function.update_of_ne h4]
    have h4' : (j : ℕ) ≠ 4 := fun e => h4 (Fin.ext e)
    exact load16_store16_of_ne _ _ (by omega)

end Clear

lemma view_pushUsed (e : VringUsedElem) : view addr availTail notify (pushUsed addr e mem) =
    VirtioRing.pushUsed (view addr availTail notify mem) e := by
  have hu := availAt_le_usedAt addr
  have hs : vringSize = 256 := rfl
  have helem := nextElem_eq addr availTail notify mem
  have hbefore : ∀ b < usedAt addr, pushUsed addr e mem b = mem b := fun b hb => by
    apply pushUsed_of_outside
    · simp only [nextElem, elemAt]
      omega
    · omega
  refine vring_ext (funext fun j => desc_congr fun b _ hb => hbefore b ?_)
    (avail_congr fun b _ hb => hbefore b (by omega)) ?_ rfl rfl
  · simp only [descAt, availAt] at hb hu
    omega
  · have hplace : ∀ i, usedAt addr + 4 ≤ elemAt addr i := fun i => Nat.le_add_right _ _
    have hne := hplace (load16 mem (usedAt addr + 2) % UInt16.ofNat vringSize).toNat
    unfold nextElem at helem
    simp only [view, pushUsed, VirtioRing.pushUsed, VringUsed.mk.injEq, load16_store16]
    refine ⟨?_, ?_, funext fun j => ?_⟩
    · simp (disch := omega) only [load16_store16_of_ne, load16_store32_of_ne]
    · simp (disch := omega) only [load16_store32_of_ne]
    · by_cases hj : j = slot vringSize (load16 mem (usedAt addr + 2)).toNat
      · subst hj
        rw [Function.update_self, helem]
        simp only [view, elemAt]
        simp (disch := omega) only [load32_store16_of_ne, load32_store32_of_ne, load32_store32]
      · rw [Function.update_of_ne hj, helem]
        have hj' : (j : ℕ) ≠ slot vringSize (load16 mem (usedAt addr + 2)).toNat :=
          fun e => hj (Fin.ext e)
        simp only [view, elemAt] at *
        simp (disch := omega) only [load32_store16_of_ne, load32_store32_of_ne]

/-- **On the bytes, `vring_publish_buf` does what it does on the structures.** -/
theorem view_vringPublishBuf (addr : ℕ) (availTail : UInt16) (notify : Bool) (idx : UInt16)
    (len : UInt32) (kick : Bool) (mem : Mem) :
    VirtioRing.vringPublishBuf (view addr availTail notify mem) idx len kick =
      (view addr availTail notify (vringPublishBuf addr notify idx len kick mem).1,
        (vringPublishBuf addr notify idx len kick mem).2) := by
  unfold VirtioRing.vringPublishBuf vringPublishBuf
  split
  · rfl
  · rename_i h
    dsimp only
    rw [← view_clearDesc availTail notify mem (Nat.not_lt.1 h), ← view_pushUsed]
    rfl

/-! ### What a call touches -/

/-- The bytes that belong to the descriptor `idx`, when `used` is the index of the used ring: its flags and
its next index, one element of the used ring, and the index itself. -/
def Own (addr : ℕ) (idx used : UInt16) (b : ℕ) : Prop :=
  descAt addr idx.toNat + 12 ≤ b ∧ b < descAt addr idx.toNat + 16 ∨
    elemAt addr (slot vringSize used.toNat) ≤ b ∧ b < elemAt addr (slot vringSize used.toNat) + 8 ∨
    usedAt addr + 2 ≤ b ∧ b < usedAt addr + 4

/-- A call of `vring_publish_buf` that leads from the memory `mem` to `mem'` has published the descriptor
`idx`, or has refused it, and has touched nothing else. -/
structure Touches (addr : ℕ) (availTail : UInt16) (notify : Bool) (idx : UInt16) (len : UInt32)
    (mem mem' : Mem) : Prop where
  /-- the bytes that are not its own stay as they are -/
  bytes : idx.toNat < vringSize →
    ∀ b, ¬ Own addr idx (view addr availTail notify mem).used.idx b → mem' b = mem b
  ring : idx.toNat < vringSize → (view addr availTail notify mem').used.ring =
    Function.update (view addr availTail notify mem).used.ring
      (slot vringSize (view addr availTail notify mem).used.idx.toNat) ⟨idx.toUInt32, len⟩
  usedIdx : idx.toNat < vringSize →
    (view addr availTail notify mem').used.idx = (view addr availTail notify mem).used.idx + 1
  refused : vringSize ≤ idx.toNat → mem' = mem
  avail : (view addr availTail notify mem').avail = (view addr availTail notify mem).avail
  others : ∀ i : Fin vringSize, (i : ℕ) ≠ idx.toNat →
    (view addr availTail notify mem').desc i = (view addr availTail notify mem).desc i

section Publish

variable (availTail : UInt16) (notify kick : Bool) (len : UInt32) (mem : Mem)

lemma vringPublishBuf_of_gt (h : vringSize < idx.toNat) :
    (vringPublishBuf addr notify idx len kick mem).1 = mem := by
  unfold vringPublishBuf
  rw [if_pos h]

lemma vringPublishBuf_of_le (h : idx.toNat ≤ vringSize) :
    (vringPublishBuf addr notify idx len kick mem).1 =
      pushUsed addr ⟨idx.toUInt32, len⟩ (clearDesc addr idx mem) := by
  unfold vringPublishBuf
  rw [if_neg h.not_gt]

variable (addr) in
/-- The used ring after a call that does not refuse the descriptor. -/
lemma used_vringPublishBuf (h : idx.toNat ≤ vringSize) :
    (view addr availTail notify (vringPublishBuf addr notify idx len kick mem).1).used =
      { (view addr availTail notify mem).used with
        ring := Function.update (view addr availTail notify mem).used.ring
          (slot vringSize (view addr availTail notify mem).used.idx.toNat) ⟨idx.toUInt32, len⟩
        idx := (view addr availTail notify mem).used.idx + 1 } := by
  rw [vringPublishBuf_of_le notify kick len mem h, view_pushUsed]
  unfold VirtioRing.pushUsed
  dsimp only
  rw [used_clearDesc availTail notify mem h]

lemma touches_of_lt (h : idx.toNat < vringSize) :
    Touches addr availTail notify idx len mem (vringPublishBuf addr notify idx len kick mem).1 := by
  have hused := used_vringPublishBuf addr availTail notify kick len mem h.le
  refine ⟨fun _ b hb => ?_, fun _ => ?_, fun _ => ?_, fun hge => absurd h hge.not_gt, ?_, fun i hi => ?_⟩
  · have hnext : nextElem addr (clearDesc addr idx mem) =
        elemAt addr (slot vringSize (view addr availTail notify mem).used.idx.toNat) := by
      rw [nextElem_eq addr availTail notify, used_clearDesc availTail notify mem h.le]
    unfold Own at hb
    rw [vringPublishBuf_of_le notify kick len mem h.le, pushUsed_of_outside (by omega) (by omega),
      clearDesc_of_outside (by omega)]
  · rw [hused]
  · rw [hused]
  · rw [vringPublishBuf_of_le notify kick len mem h.le, view_pushUsed]
    exact avail_clearDesc availTail notify mem h
  · rw [vringPublishBuf_of_le notify kick len mem h.le, view_pushUsed]
    exact desc_clearDesc_of_ne availTail notify mem hi

lemma touches_of_gt (h : vringSize < idx.toNat) :
    Touches addr availTail notify idx len mem (vringPublishBuf addr notify idx len kick mem).1 := by
  rw [vringPublishBuf_of_gt notify kick len mem h]
  exact ⟨fun hlt => absurd h hlt.not_gt, fun hlt => absurd h hlt.not_gt, fun hlt => absurd h hlt.not_gt,
    fun _ => rfl, rfl, fun _ _ => rfl⟩

end Publish

end View

/-- **`vring_publish_buf` touches only its own descriptor**, for every memory, unless it is called for the
descriptor behind the last one. -/
theorem touches_iff (addr : ℕ) (availTail : UInt16) (notify : Bool) (idx : UInt16) (len : UInt32)
    (kick : Bool) (mem : Mem) :
    Touches addr availTail notify idx len mem (vringPublishBuf addr notify idx len kick mem).1 ↔
      idx.toNat ≠ vringSize := by
  constructor
  · intro h e
    have hused := used_vringPublishBuf addr availTail notify kick len mem e.le
    rw [h.refused e.ge] at hused
    have hidx := congrArg (fun u => u.idx.toNat) hused
    have hlt := (view addr availTail notify mem).used.idx.toNat_lt
    simp only [UInt16.toNat_add, UInt16.reduceToNat] at hidx
    omega
  · intro hne
    rcases Nat.lt_or_gt_of_ne hne with h | h
    · exact touches_of_lt availTail notify kick len mem h
    · exact touches_of_gt availTail notify kick len mem h

/-- A memory in which every bit is set. -/
def ones : Mem := fun _ => 0xFF

/-- To publish the descriptor behind the last one clears the entry 5 of the available ring. -/
theorem behindLast_touches : ¬ Touches 0 0 true 256 512 ones (vringPublishBuf 0 true 256 512 true ones).1 := by
  intro h
  have hring : (view 0 0 true (vringPublishBuf 0 true 256 512 true ones).1).avail.ring 5 =
      (view 0 0 true ones).avail.ring 5 := by rw [h.avail]
  exact absurd hring (by decide +kernel)

end CfgMgmt.Firmware.VringLayout
