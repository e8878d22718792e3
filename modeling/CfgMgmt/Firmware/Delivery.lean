import CfgMgmt.Firmware.Channels
import CfgMgmt.Firmware.Circulation
import CfgMgmt.Firmware.Steps
import CfgMgmt.Lib.Fifo

/-!
# What is put into the rings arrives

The kernel fills receive buffers and offers them, and the firmware fills transmit buffers and publishes
them.  When the kernel offers only buffers that the firmware has returned, each direction is a FIFO
channel, whatever the callbacks send while a message is delivered: packets are read as they were offered
and in this order, and a published message stays in its buffer until the buffer is offered again
(`carried_run`).
-/

namespace CfgMgmt.Firmware.Delivery

open CfgMgmt.Lib CfgMgmt.Lib.Bytes CfgMgmt.Lib.Ring CfgMgmt.Lib.Machine CfgMgmt.Msg
open CfgMgmt.Firmware.VirtioRing CfgMgmt.Firmware.Remoteproc CfgMgmt.Firmware.Buffers
open CfgMgmt.Firmware.Steps
open CfgMgmt.Firmware.Channels (echo a_noNul)
open CfgMgmt.Firmware.Circulation (unreadAvail unreadAvail_offer unreadAvail_get unreadAvail_publish
  toNat_succ allDescs length_allDescs)

/-! ### Histories -/

/-- What happens to the packets of the receive ring: the kernel puts them in, the firmware takes them out,
each with the index of its buffer. -/
def rxOps (log : List Ev) : List (Fifo.Op (UInt16 × Packet)) :=
  log.filterMap fun
    | .kernel (.offerRx d pkt) => some (.put (UInt16.ofNat d, pkt))
    | .rxTake d pkt => some (.take (d, pkt))
    | _ => none

def published (log : List Ev) : List (UInt16 × Packet) :=
  log.filterMap fun | .txPublish d pkt _ => some (d, pkt) | _ => none

section Histories

variable (log log' : List Ev)

lemma rxOps_append : rxOps (log ++ log') = rxOps log ++ rxOps log' := List.filterMap_append

lemma published_append : published (log ++ log') = published log ++ published log' :=
  List.filterMap_append

end Histories

/-- The kernel offers no transmit buffer that carries one of the messages from the `c`-th on. -/
def NotReused (c : ℕ) (log : List Ev) : Prop :=
  ∀ pre (f : Fin vringSize) post, log = pre ++ .kernel (.offerTx f) :: post →
    UInt16.ofNat f ∉ ((published pre).drop c).map Prod.fst

lemma NotReused.of_append {c : ℕ} {log log' : List Ev} (h : NotReused c (log ++ log')) :
    NotReused c log := by
  rintro pre f post rfl
  exact h pre f (post ++ log') (by simp)

/-! ### Loans -/

/-- The buffers the kernel has offered and the firmware has not returned. -/
structure Loans where
  rx : List UInt16
  tx : List UInt16

/-- An honest kernel offers a buffer only when it owns it, and its messages leave room for a byte behind
their text. -/
def Loans.next (l : Loans) : Ev → Option Loans
  | .kernel (.offerRx d pkt) =>
    if UInt16.ofNat d ∉ l.rx ∧ pkt.len.toNat < dataLenMax then
      some { l with rx := l.rx ++ [UInt16.ofNat d] }
    else none
  | .kernel (.offerTx d) =>
    if UInt16.ofNat d ∉ l.tx then some { l with tx := l.tx ++ [UInt16.ofNat d] } else none
  | .rxPublish d _ => some { l with rx := l.rx.erase d }
  | .txPublish d _ _ => some { l with tx := l.tx.erase d }
  | _ => some l

/-- The buffers that wait in the rings. -/
def Loans.of (m : Shared) : Loans := ⟨unreadAvail m.rx, unreadAvail m.tx⟩

/-- The kernel has been honest since `m`. -/
def Honest (m : Shared) (log : List Ev) : Prop := (run Loans.next (.of m) log).isSome

/-! ### Addresses -/

def Apart (a b : UInt32) : Prop := packetLenMax ≤ (a - b).toNat ∧ packetLenMax ≤ (b - a).toNat

lemma Apart.symm {a b : UInt32} (h : Apart a b) : Apart b a := ⟨h.2, h.1⟩

lemma Apart.ne {a b : UInt32} (h : Apart a b) : a ≠ b := by
  rintro rfl
  exact absurd h.1 (by simp)

/-- A store into the data of one buffer does not reach the other. -/
lemma Apart.storeZero {a b : UInt32} (h : Apart a b) {k : ℕ} (hk : k < dataLenMax)
    (bufs : UInt32 → Packet) : storeZero (a + 16 + UInt32.ofNat k) bufs b = bufs b := by
  refine storeZero_of_far ?_ bufs
  obtain ⟨h1, h2⟩ := h
  have hk' : (UInt32.ofNat k).toNat = k := UInt32.toNat_ofNat_of_lt' (hk.trans (by decide))
  have hlen : dataLenMax + 16 = packetLenMax := rfl
  have hmax : packetLenMax ≤ 2 ^ 32 := by decide
  have hsub : (a - b).toNat + (b - a).toNat = 2 ^ 32 := by
    have hne : a.toNat ≠ b.toNat := fun e => Apart.ne ⟨h1, h2⟩ (UInt32.toNat_inj.1 e)
    have ha := a.toNat_lt
    have hb := b.toNat_lt
    rw [UInt32.toNat_sub, UInt32.toNat_sub]
    omega
  have hsum : (16 + UInt32.ofNat k).toNat = 16 + k := by
    rw [UInt32.toNat_add, hk', show (16 : UInt32).toNat = 16 from rfl]
    exact Nat.mod_eq_of_lt (by omega)
  have hab : a + 16 + UInt32.ofNat k - b = a - b + (16 + UInt32.ofNat k) := by
    simp only [UInt32.sub_eq_add_neg]
    ac_rfl
  rw [hab, UInt32.toNat_add, hsum, Nat.mod_eq_of_lt (by omega)]
  omega

/-- The buffers of the two rings do not overlap. -/
structure Separate (m : Shared) : Prop where
  rx : ∀ i j, i ≠ j → Apart (m.rx.desc i).addr (m.rx.desc j).addr
  tx : ∀ i j, i ≠ j → Apart (m.tx.desc i).addr (m.tx.desc j).addr
  cross : ∀ i j, Apart (m.rx.desc i).addr (m.tx.desc j).addr

section Addresses

variable {vr vr' : Vring} {d : UInt16} {i : Fin vringSize}

lemma desc_getBuf (hg : vringGetBuf vr = (some d, vr')) : vr'.desc = vr.desc := by
  by_cases he : vr.avail.availIdx = vr.availTail
  · simp [vringGetBuf_of_eq vr he] at hg
  · rw [vringGetBuf_of_ne vr he] at hg
    obtain ⟨-, rfl⟩ := Prod.mk.inj hg
    rfl

/-- The buffer that is taken was offered first of those on loan. -/
lemma unreadAvail_getBuf {vr vr' : Vring} (hg : vringGetBuf vr = (some d, vr')) :
    unreadAvail vr = d :: unreadAvail vr' ∧ vr'.used = vr.used := by
  by_cases he : vr.avail.availIdx = vr.availTail
  · simp [vringGetBuf_of_eq _ he] at hg
  · rw [vringGetBuf_of_ne _ he] at hg
    obtain ⟨hd, rfl⟩ := Prod.mk.inj hg
    rw [← Option.some.inj hd]
    exact ⟨unreadAvail_get vr he, rfl⟩

lemma addr_publish (len : UInt32) (kick : Bool) (hd : d.toNat < vringSize) :
    ((vringPublishBuf vr d len kick).1.desc i).addr = (vr.desc i).addr := by
  simp only [vringPublishBuf, hd.not_gt, if_false, pushUsed, clearDesc, hd, dif_pos]
  by_cases h : i = ⟨d.toNat, hd⟩
  · subst h
    simp
  · simp [h]

lemma Separate.of_addr {m m' : Shared} (h : Separate m)
    (hrx : ∀ i, (m'.rx.desc i).addr = (m.rx.desc i).addr)
    (htx : ∀ i, (m'.tx.desc i).addr = (m.tx.desc i).addr) : Separate m' where
  rx i j hne := by
    rw [hrx, hrx]
    exact h.rx i j hne
  tx i j hne := by
    rw [htx, htx]
    exact h.tx i j hne
  cross i j := by
    rw [hrx, htx]
    exact h.cross i j

lemma slot_ne_of_ne {d d' : UInt16} (h : d.toNat < vringSize) (h' : d'.toNat < vringSize)
    (hne : d ≠ d') : slot vringSize d.toNat ≠ slot vringSize d'.toNat := by
  rw [slot_of_lt h, slot_of_lt h']
  exact fun e => hne (UInt16.toNat_inj.1 (Fin.mk.inj e))

lemma Separate.apart_rx {m : Shared} (h : Separate m) {d d' : UInt16} (hd : d.toNat < vringSize)
    (hd' : d'.toNat < vringSize) (hne : d ≠ d') : Apart (addrAt m.rx d) (addrAt m.rx d') :=
  h.rx _ _ (slot_ne_of_ne hd hd' hne)

lemma Separate.apart_tx {m : Shared} (h : Separate m) {d d' : UInt16} (hd : d.toNat < vringSize)
    (hd' : d'.toNat < vringSize) (hne : d ≠ d') : Apart (addrAt m.tx d) (addrAt m.tx d') :=
  h.tx _ _ (slot_ne_of_ne hd hd' hne)

end Addresses

/-! ### Receiving -/

/-- The packets that wait in the receive ring. -/
def waiting (m : Shared) : List (UInt16 × Packet) :=
  (unreadAvail m.rx).map fun d => (d, m.bufs (addrAt m.rx d))

/-- Where the receive buffers are, and that no packet was lost, repeated or changed since `m₀`. -/
structure Receives (m₀ : Shared) (l : Loans) (held : Option (UInt16 × Bool)) (m : Shared) : Prop where
  lt : ∀ d ∈ l.rx, d.toNat < vringSize
  nodup : l.rx.Nodup
  loans : l.rx = held.toList.map Prod.fst ++ unreadAvail m.rx
  short : ∀ d ∈ l.rx, held ≠ some (d, true) → (m.bufs (addrAt m.rx d)).len.toNat < dataLenMax
  received : run Fifo.step (waiting m₀) (rxOps m.log) = some (waiting m)

section Receive

variable {κ α : Type} {app : App κ α} {m₀ m m' : Shared} {l l' : Loans}
  {held held' : Option (UInt16 × Bool)} {evs : List Ev} {d : UInt16}

lemma waiting_congr (hu : unreadAvail m'.rx = unreadAvail m.rx)
    (ha : ∀ d, addrAt m'.rx d = addrAt m.rx d)
    (hb : ∀ d ∈ unreadAvail m.rx, m'.bufs (addrAt m.rx d) = m.bufs (addrAt m.rx d)) :
    waiting m' = waiting m := by
  unfold waiting
  rw [hu]
  refine List.map_congr_left fun d hd => ?_
  rw [ha, hb d hd]

lemma Receives.mem_of_unread (h : Receives m₀ l held m) (hd : d ∈ unreadAvail m.rx) : d ∈ l.rx := by
  rw [h.loans]
  exact List.mem_append_right _ hd

lemma Receives.frame (h : Receives m₀ l held m) (hrx : m'.rx = m.rx) (hl : l'.rx = l.rx)
    (hlog : m'.log = m.log ++ evs) (hops : rxOps evs = [])
    (hb : ∀ d ∈ l.rx, m'.bufs (addrAt m.rx d) = m.bufs (addrAt m.rx d)) :
    Receives m₀ l' held m' where
  lt := hl ▸ h.lt
  nodup := hl ▸ h.nodup
  loans := by
    rw [hl, hrx]
    exact h.loans
  short d hd hne := by
    rw [hl] at hd
    rw [hrx, hb d hd]
    exact h.short d hd hne
  received := by
    have hw : waiting m' = waiting m :=
      waiting_congr (by rw [hrx]) (fun _ => by rw [hrx]) fun d hd => hb d (h.mem_of_unread hd)
    rw [hlog, rxOps_append, hops, hw, List.append_nil]
    exact h.received

lemma length_lt_of_new {l : List UInt16} (hn : l.Nodup) (hlt : ∀ x ∈ l, x.toNat < vringSize)
    (hd : d.toNat < vringSize) (hnew : d ∉ l) : l.length < vringSize := by
  have hsub : (d :: l).Subperm allDescs := by
    refine List.subperm_of_subset (List.nodup_cons.2 ⟨hnew, hn⟩) fun x hx => ?_
    have hx' : x.toNat < vringSize := by
      rcases List.mem_cons.1 hx with rfl | hx
      · exact hd
      · exact hlt x hx
    exact List.mem_map.2 ⟨x.toNat, List.mem_range.2 hx', UInt16.ofNat_toNat⟩
  have hle := hsub.length_le
  rw [length_allDescs, List.length_cons] at hle
  omega

lemma toNat_ofNat_fin (f : Fin vringSize) : (UInt16.ofNat f).toNat = f :=
  UInt16.toNat_ofNat_of_lt' (f.isLt.trans (by decide))

lemma addrAt_ofNat (vr : Vring) (f : Fin vringSize) : addrAt vr (UInt16.ofNat f) = (vr.desc f).addr := by
  rw [addrAt_of_lt (by rw [toNat_ofNat_fin]; exact f.isLt)]
  simp only [toNat_ofNat_fin]

lemma Receives.offer (h : Receives m₀ l held m) (hsep : Separate m) {f : Fin vringSize} {pkt : Packet}
    (hnew : UInt16.ofNat f ∉ l.rx) (hlen : pkt.len.toNat < dataLenMax) :
    Receives m₀ { l with rx := l.rx ++ [UInt16.ofNat f] } held (m.act (.offerRx f pkt)) := by
  have hf : (UInt16.ofNat f).toNat < vringSize := by
    rw [toNat_ofNat_fin]
    exact f.isLt
  have hfree : pending UInt16.size m.rx.availTail.toNat m.rx.avail.availIdx.toNat < vringSize := by
    have hlt := length_lt_of_new h.nodup h.lt hf hnew
    have hle := congrArg List.length h.loans
    rw [List.length_append, unreadAvail, length_unread] at hle
    omega
  have hu := unreadAvail_offer m.rx (UInt16.ofNat f) hfree
  have hold : ∀ d ∈ l.rx, Function.update m.bufs (m.rx.desc f).addr pkt (addrAt m.rx d) =
      m.bufs (addrAt m.rx d) := fun d hd => by
    have hne : d ≠ UInt16.ofNat f := fun e => hnew (e ▸ hd)
    rw [← addrAt_ofNat, Function.update_of_ne (hsep.apart_rx (h.lt d hd) hf hne).ne]
  have hself : Function.update m.bufs (m.rx.desc f).addr pkt (addrAt m.rx (UInt16.ofNat f)) = pkt := by
    rw [← addrAt_ofNat, Function.update_self]
  refine ⟨fun d hd => ?_, ?_, ?_, fun d hd hne => ?_, ?_⟩
  · rcases List.mem_append.1 hd with hd | hd
    · exact h.lt d hd
    · exact List.mem_singleton.1 hd ▸ hf
  · exact List.nodup_append.2 ⟨h.nodup, List.pairwise_singleton _ _,
      fun a ha b hb e => hnew (List.mem_singleton.1 hb ▸ e ▸ ha)⟩
  · show l.rx ++ _ = _ ++ unreadAvail (offerDesc m.rx _)
    rw [hu, h.loans, List.append_assoc]
  · show (Function.update m.bufs (m.rx.desc f).addr pkt (addrAt m.rx d)).len.toNat < dataLenMax
    rcases List.mem_append.1 hd with hd | hd
    · rw [hold d hd]
      exact h.short d hd hne
    · rw [List.mem_singleton.1 hd, hself]
      exact hlen
  · have hw : waiting (m.act (.offerRx f pkt)) = waiting m ++ [(UInt16.ofNat f, pkt)] := by
      show (unreadAvail (offerDesc m.rx _)).map _ = _
      rw [hu, List.map_append]
      congr 1
      · exact List.map_congr_left fun d hd => by
          exact congrArg (Prod.mk d) (hold d (h.mem_of_unread hd))
      · exact congrArg (fun p => [(UInt16.ofNat f, p)]) hself
    show run Fifo.step (waiting m₀) (rxOps (m.log ++ [.kernel (.offerRx f pkt)])) = _
    rw [rxOps_append, hw]
    exact run_concat_eq_some.2 ⟨_, h.received, Fifo.step_put ..⟩

/-- **The firmware takes a packet**, the oldest. -/
lemma Receives.take {rx : Vring} (h : Receives m₀ l none m) (hg : vringGetBuf m.rx = (some d, rx)) :
    Receives m₀ l (some (d, false)) (m.take rx d) := by
  have haddr : ∀ x, addrAt rx x = addrAt m.rx x := fun x => by
    unfold addrAt
    rw [desc_getBuf hg]
  obtain ⟨hu, -⟩ := unreadAvail_getBuf hg
  refine ⟨h.lt, h.nodup, ?_, fun x hx _ => ?_, ?_⟩
  · rw [h.loans, hu]
    rfl
  · show (m.bufs (addrAt rx x)).len.toNat < dataLenMax
    rw [haddr]
    exact h.short x hx (Option.some_ne_none _).symm
  · have hw : waiting m = (d, m.bufs (addrAt rx d)) :: waiting (m.take rx d) := by
      show (unreadAvail m.rx).map _ = _
      rw [hu, List.map_cons, haddr]
      congr 1
      exact List.map_congr_left fun x _ => by rw [← haddr]; rfl
    show run Fifo.step (waiting m₀) (rxOps (m.log ++ [.rxTake d _])) = _
    rw [rxOps_append]
    exact run_concat_eq_some.2 ⟨_, h.received, Fifo.step_take_eq_some.2 hw⟩

/-- The callbacks store their 0 behind the text of a message only. -/
def Tidy (app : App κ α) : Prop :=
  ∀ pkt k, Zeroes app pkt k → pkt.len.toNat < dataLenMax → k < dataLenMax

/-- The 0 that a callback stores in the held buffer does not reach a buffer apart from it. -/
lemma Receives.bufs_enter {zeroAt : Option ℕ} {b : UInt32} (h : Receives m₀ l (some (d, false)) m)
    (happ : Tidy app) (hz : ∀ k, zeroAt = some k → Zeroes app (m.bufs (addrAt m.rx d)) k)
    (hb : Apart (addrAt m.rx d) b) (i : Fin maxRpmsgCh) : (m.enter d i zeroAt).bufs b = m.bufs b := by
  cases zeroAt with
  | none => rfl
  | some k =>
    have hmem : d ∈ l.rx := by
      rw [h.loans]
      exact List.mem_append_left _ (List.mem_singleton_self d)
    exact hb.storeZero (happ _ k (hz k rfl) (h.short d hmem (by simp))) m.bufs

/-- **A callback is called** with the packet. -/
lemma Receives.enter {zeroAt : Option ℕ} (h : Receives m₀ l (some (d, false)) m) (hsep : Separate m)
    (happ : Tidy app) (hz : ∀ k, zeroAt = some k → Zeroes app (m.bufs (addrAt m.rx d)) k)
    (i : Fin maxRpmsgCh) : Receives m₀ l (some (d, true)) (m.enter d i zeroAt) := by
  have hmem : d ∈ l.rx := by
    rw [h.loans]
    exact List.mem_append_left _ (List.mem_singleton_self d)
  have hb : ∀ x ∈ l.rx, x ≠ d → (m.enter d i zeroAt).bufs (addrAt m.rx x) = m.bufs (addrAt m.rx x) :=
    fun x hx hne => h.bufs_enter happ hz (hsep.apart_rx (h.lt d hmem) (h.lt x hx) hne.symm) i
  refine ⟨h.lt, h.nodup, h.loans, fun x hx hne => ?_, ?_⟩
  · show ((m.enter d i zeroAt).bufs (addrAt m.rx x)).len.toNat < dataLenMax
    have hxd : x ≠ d := by
      rintro rfl
      exact hne rfl
    rw [hb x hx hxd]
    exact h.short x hx (by simp)
  · have hw : waiting (m.enter d i zeroAt) = waiting m := by
      refine waiting_congr rfl (fun _ => rfl) fun x hx => hb x (h.mem_of_unread hx) ?_
      rintro rfl
      have hn := h.nodup
      rw [h.loans] at hn
      exact (List.nodup_cons.1 hn).1 hx
    show run Fifo.step (waiting m₀) (rxOps (m.log ++ [.cbCall i])) = _
    rw [rxOps_append, hw]
    exact (List.append_nil (rxOps m.log)).symm ▸ h.received

lemma Receives.give {called : Bool} (h : Receives m₀ l (some (d, called)) m) (hd : d.toNat < vringSize)
    (notified : Bool) : Receives m₀ { l with rx := l.rx.erase d } none (m.give d notified) := by
  have haddr : ∀ x, addrAt (m.give d notified).rx x = addrAt m.rx x := fun x => addr_publish _ _ hd
  have hu : unreadAvail (m.give d notified).rx = unreadAvail m.rx := unreadAvail_publish _ _ _ hd
  have hl : l.rx.erase d = unreadAvail m.rx := by
    rw [h.loans]
    exact List.erase_cons_head ..
  have hn := h.nodup
  rw [h.loans] at hn
  obtain ⟨hnew, hnodup⟩ := List.nodup_cons.1 hn
  refine ⟨fun x hx => ?_, ?_, ?_, fun x hx _ => ?_, ?_⟩
  · exact h.lt x (List.mem_of_mem_erase hx)
  · rw [hl]
    exact hnodup
  · rw [hl, hu]
    rfl
  · rw [haddr]
    have hxd : x ≠ d := by
      rintro rfl
      rw [hl] at hx
      exact hnew hx
    exact h.short x (List.mem_of_mem_erase hx) fun e => hxd (Prod.mk.inj (Option.some.inj e)).1.symm
  · have hw : waiting (m.give d notified) = waiting m := waiting_congr hu haddr fun _ _ => rfl
    show run Fifo.step (waiting m₀) (rxOps (m.log ++ [.rxPublish d notified])) = _
    rw [rxOps_append, hw]
    exact (List.append_nil (rxOps m.log)).symm ▸ h.received

end Receive

/-! ### Sending -/

/-- The entry of the used ring for a message. -/
def entry (p : UInt16 × Packet) : VringUsedElem := ⟨p.1.toUInt32, UInt32.ofNat packetLenMax⟩

/-- The entries of the used ring behind the first `c` that were published since `m₀`. -/
def usedFrom (m₀ : Shared) (c : ℕ) (m : Shared) : List VringUsedElem :=
  unread vringSize UInt16.size m.tx.used.ring (m₀.tx.used.idx + UInt16.ofNat c).toNat m.tx.used.idx.toNat

/-- The messages from the `c`-th on can be read by the kernel. -/
structure Readable (m₀ : Shared) (l : Loans) (c : ℕ) (m : Shared) : Prop where
  lt : ∀ p ∈ (published m.log).drop c, p.1.toNat < vringSize
  nodup : (l.tx ++ ((published m.log).drop c).map Prod.fst).Nodup
  used : usedFrom m₀ c m = ((published m.log).drop c).map entry
  holds : ∀ p ∈ (published m.log).drop c, m.bufs (addrAt m.tx p.1) = p.2

/-- Where the transmit buffers are, and that no message was lost, repeated or changed since `m₀`. -/
structure Transmits (m₀ : Shared) (l : Loans) (m : Shared) : Prop where
  lt : ∀ d ∈ l.tx, d.toNat < vringSize
  nodup : l.tx.Nodup
  loans : l.tx = unreadAvail m.tx
  idx : m.tx.used.idx = m₀.tx.used.idx + UInt16.ofNat (published m.log).length
  readable : ∀ c ≤ (published m.log).length, NotReused c m.log → Readable m₀ l c m

section Transmit

variable {m₀ m m' : Shared} {l l' : Loans} {evs : List Ev} {d : UInt16}

lemma Transmits.frame (h : Transmits m₀ l m) (hsep : Separate m) (htx : m'.tx = m.tx) (hl : l'.tx = l.tx)
    (hlog : m'.log = m.log ++ evs) (hpub : published evs = [])
    (hb : ∀ b, (∀ i, Apart (m.rx.desc i).addr b) → m'.bufs b = m.bufs b) : Transmits m₀ l' m' := by
  have hp : published m'.log = published m.log := by
    rw [hlog, published_append, hpub, List.append_nil]
  refine ⟨hl ▸ h.lt, hl ▸ h.nodup, ?_, ?_, fun c hc hr => ?_⟩
  · rw [hl, htx]
    exact h.loans
  · rw [htx, hp]
    exact h.idx
  · rw [hp] at hc
    rw [hlog] at hr
    obtain ⟨hlt, hn, hu, hh⟩ := h.readable c hc hr.of_append
    refine ⟨by rwa [hp], by rwa [hp, hl], ?_, fun p hmem => ?_⟩
    · rw [hp, ← hu, usedFrom, usedFrom, htx]
    · rw [hp] at hmem
      rw [htx, hb (addrAt m.tx p.1) fun i => hsep.cross i _]
      exact hh p hmem

/-- **The kernel offers an empty buffer**, which is not one that it can still read. -/
lemma Transmits.offer (h : Transmits m₀ l m) {f : Fin vringSize} (hnew : UInt16.ofNat f ∉ l.tx) :
    Transmits m₀ { l with tx := l.tx ++ [UInt16.ofNat f] } (m.act (.offerTx f)) := by
  have hf : (UInt16.ofNat f).toNat < vringSize := by
    rw [toNat_ofNat_fin]
    exact f.isLt
  have hfree : pending UInt16.size m.tx.availTail.toNat m.tx.avail.availIdx.toNat < vringSize := by
    have hlt := length_lt_of_new h.nodup h.lt hf hnew
    rw [h.loans, unreadAvail, length_unread] at hlt
    exact hlt
  have hp : published (m.act (.offerTx f)).log = published m.log := by
    show published (m.log ++ _) = _
    rw [published_append]
    exact List.append_nil _
  refine ⟨fun d hd => ?_, ?_, ?_, ?_, fun c hc hr => ?_⟩
  · rcases List.mem_append.1 hd with hd | hd
    · exact h.lt d hd
    · exact List.mem_singleton.1 hd ▸ hf
  · exact List.nodup_append.2 ⟨h.nodup, List.pairwise_singleton _ _,
      fun a ha b hb e => hnew (List.mem_singleton.1 hb ▸ e ▸ ha)⟩
  · show l.tx ++ _ = unreadAvail (offerDesc m.tx _)
    rw [unreadAvail_offer m.tx _ hfree, h.loans]
  · rw [hp]
    exact h.idx
  · rw [hp] at hc
    have hr : NotReused c (m.log ++ [.kernel (.offerTx f)]) := hr
    obtain ⟨hlt, hn, hu, hh⟩ := h.readable c hc hr.of_append
    refine ⟨by rwa [hp], ?_, by rwa [hp], by rwa [hp]⟩
    have hfresh := hr m.log f [] rfl
    rw [hp]
    show (l.tx ++ [UInt16.ofNat f] ++ _).Nodup
    rw [List.append_assoc, List.singleton_append]
    exact List.perm_middle.nodup_iff.2 (List.nodup_cons.2
      ⟨fun hmem => (List.mem_append.1 hmem).elim hnew hfresh, hn⟩)

section Send

variable {tx : Vring} (hg : vringGetBuf m.tx = (some d, tx)) (hd : d.toNat < vringSize) (pkt : Packet)
  (notified : Bool)

lemma published_send :
    published (m.send tx d pkt notified).log = published m.log ++ [(d, pkt)] := by
  show published (m.log ++ _) = _
  rw [published_append]
  rfl

include hg hd

lemma addrAt_send (x : UInt16) : addrAt (m.send tx d pkt notified).tx x = addrAt m.tx x := by
  refine (addr_publish _ _ hd).trans ?_
  rw [desc_getBuf hg]
  rfl

lemma usedIdx_send : (m.send tx d pkt notified).tx.used.idx = m.tx.used.idx + 1 := by
  rw [← (unreadAvail_getBuf hg).2]
  exact vringPublishBuf_idx _ _ hd

lemma usedRing_send : (m.send tx d pkt notified).tx.used.ring =
    Function.update m.tx.used.ring (slot vringSize m.tx.used.idx.toNat) (entry (d, pkt)) := by
  rw [← (unreadAvail_getBuf hg).2]
  exact vringPublishBuf_ring _ _ hd

/-- The kernel can still read what it could read, and the new message. -/
lemma Readable.send {c : ℕ} (h : Readable m₀ l c m) (hc : c ≤ (published m.log).length)
    (hsep : Separate m) (hl : l.tx = d :: l'.tx) : Readable m₀ l' c (m.send tx d pkt notified) := by
  obtain ⟨hlt, hn, hu, hh⟩ := h
  have hdrop : (published m.log ++ [(d, pkt)]).drop c = (published m.log).drop c ++ [(d, pkt)] :=
    List.drop_append_of_le_length hc
  rw [hl, List.cons_append] at hn
  obtain ⟨hfresh, hrest⟩ := List.nodup_cons.1 hn
  have hfree : d ∉ ((published m.log).drop c).map Prod.fst := fun hmem =>
    hfresh (List.mem_append_right _ hmem)
  have hroom : pending UInt16.size (m₀.tx.used.idx + UInt16.ofNat c).toNat m.tx.used.idx.toNat <
      vringSize := by
    have hlen := congrArg List.length hu
    rw [usedFrom, length_unread, List.length_map] at hlen
    rw [hlen, ← List.length_map Prod.fst]
    refine length_lt_of_new (List.nodup_append.1 hrest).2.1 (fun x hx => ?_) hd hfree
    obtain ⟨p, hmem, rfl⟩ := List.mem_map.1 hx
    exact hlt p hmem
  refine ⟨?_, ?_, ?_, ?_⟩ <;> rw [published_send, hdrop]
  · intro p hmem
    rcases List.mem_append.1 hmem with hmem | hmem
    · exact hlt p hmem
    · exact List.mem_singleton.1 hmem ▸ hd
  · rw [List.map_append, ← List.append_assoc]
    exact (List.perm_append_singleton d _).nodup_iff.2 hn
  · rw [List.map_append, ← hu, usedFrom, usedFrom, usedRing_send hg hd, usedIdx_send hg hd, toNat_succ]
    exact unread_push (by decide) (by decide) (UInt16.toNat_lt_size _) (UInt16.toNat_lt_size _) _ _ hroom
  · intro p hmem
    rw [addrAt_send hg hd]
    show Function.update m.bufs (addrAt tx d) pkt (addrAt m.tx p.1) = p.2
    have htx : addrAt tx d = addrAt m.tx d := by
      unfold addrAt
      rw [desc_getBuf hg]
    rw [htx]
    rcases List.mem_append.1 hmem with hmem | hmem
    · have hne : p.1 ≠ d := fun e => hfree (e ▸ List.mem_map_of_mem hmem)
      rw [Function.update_of_ne (hsep.apart_tx (hlt p hmem) hd hne).ne]
      exact hh p hmem
    · obtain rfl := List.mem_singleton.1 hmem
      exact Function.update_self ..

end Send

lemma readable_end {c : ℕ} (hn : l.tx.Nodup) (hc : c = (published m.log).length)
    (hidx : m.tx.used.idx = m₀.tx.used.idx + UInt16.ofNat (published m.log).length) :
    Readable m₀ l c m := by
  have hnone : (published m.log).drop c = [] := List.drop_of_length_le hc.ge
  refine ⟨?_, ?_, ?_, ?_⟩ <;> rw [hnone]
  · exact fun p hmem => absurd hmem List.not_mem_nil
  · rwa [List.map_nil, List.append_nil]
  · rw [usedFrom, hc, ← hidx]
    exact unread_self _ (UInt16.toNat_lt_size _)
  · exact fun p hmem => absurd hmem List.not_mem_nil

lemma Transmits.send {tx : Vring} (h : Transmits m₀ l m) (hsep : Separate m)
    (hg : vringGetBuf m.tx = (some d, tx)) (hd : d.toNat < vringSize) (pkt : Packet) (notified : Bool) :
    Transmits m₀ { l with tx := l.tx.erase d } (m.send tx d pkt notified) := by
  have hl : l.tx = d :: unreadAvail tx := h.loans.trans (unreadAvail_getBuf hg).1
  have hle : l.tx.erase d = unreadAvail tx := by
    rw [hl]
    exact List.erase_cons_head ..
  have hn := h.nodup
  rw [hl] at hn
  have hnodup : (l.tx.erase d).Nodup := by
    rw [hle]
    exact (List.nodup_cons.1 hn).2
  have hidx : (m.send tx d pkt notified).tx.used.idx = m₀.tx.used.idx +
      UInt16.ofNat (published (m.send tx d pkt notified).log).length := by
    rw [usedIdx_send hg hd, published_send, h.idx, List.length_append, UInt16.ofNat_add,
      ← UInt16.add_assoc]
    rfl
  refine ⟨fun x hx => h.lt x (List.mem_of_mem_erase hx), hnodup, ?_, hidx, fun c hc hr => ?_⟩
  · rw [hle]
    exact (unreadAvail_publish tx _ _ hd).symm
  · by_cases hend : c = (published (m.send tx d pkt notified).log).length
    · exact readable_end hnodup hend hidx
    · rw [published_send, List.length_append, List.length_singleton] at hc hend
      have hc' : c ≤ (published m.log).length := by omega
      exact (h.readable c hc' hr.of_append).send hg hd pkt notified hc' hsep (by rw [hle, hl])

end Transmit

/-! ### Every step -/

section Step

variable {κ α : Type} {app : App κ α} {m₀ m m' : Shared} {l : Loans}
  {held held' : Option (UInt16 × Bool)}

/-- Both directions. -/
structure Good (m₀ : Shared) (l : Loans) (held : Option (UInt16 × Bool)) (m : Shared) : Prop where
  separate : Separate m
  receives : Receives m₀ l held m
  transmits : Transmits m₀ l m

/-- Everything is in order as long as the kernel was honest. -/
def Sound (m₀ : Shared) (st : Stage) : Prop :=
  ∀ l, run Loans.next (.of m₀) st.2.log = some l → Good m₀ l st.1 st.2

lemma Sound.of_log (h : Sound m₀ (held, m)) (evs : List Ev) (hlog : m'.log = m.log ++ evs)
    (hgood : ∀ l l', Good m₀ l held m → run Loans.next l evs = some l' → Good m₀ l' held' m') :
    Sound m₀ (held', m') := by
  intro l' hr
  rw [hlog] at hr
  obtain ⟨l, hl, hr⟩ := run_append_eq_some.1 hr
  exact hgood l l' (h l hl) hr

lemma Good.separate_of_same (h : Good m₀ l held m) (hrx : m'.rx.desc = m.rx.desc)
    (htx : m'.tx.desc = m.tx.desc) : Separate m' :=
  h.separate.of_addr (fun i => by rw [hrx]) fun i => by rw [htx]

lemma Good.emit (h : Good m₀ l held m) (e : Ev) (hops : rxOps [e] = [])
    (hpub : published [e] = []) : Good m₀ l held { m with log := m.log ++ [e] } where
  separate := h.separate_of_same rfl rfl
  receives := h.receives.frame rfl rfl rfl hops fun _ _ => rfl
  transmits := h.transmits.frame h.separate rfl rfl rfl hpub fun _ _ => rfl

/-- The transmit ring changes, the receive ring and its buffers do not. -/
lemma Receives.frame_act (h : Receives m₀ l held m) {a : KernelAct} {l' : Loans}
    (hrx : (m.act a).rx = m.rx) (hl : l'.rx = l.rx) (hlog : (m.act a).log = m.log ++ [.kernel a])
    (hops : rxOps [.kernel a] = []) (hb : (m.act a).bufs = m.bufs) :
    Receives m₀ l' held (m.act a) :=
  h.frame hrx hl hlog hops fun _ _ => by rw [hb]

lemma Good.act {l' : Loans} (h : Good m₀ l held m) (a : KernelAct)
    (hl : l.next (.kernel a) = some l') : Good m₀ l' held (m.act a) := by
  cases a with
  | offerTx f =>
    obtain ⟨hnew, hl⟩ := Option.ite_none_right_eq_some.1 hl
    obtain rfl := Option.some.inj hl
    exact ⟨h.separate_of_same rfl rfl, h.receives.frame_act rfl rfl rfl rfl rfl,
      h.transmits.offer hnew⟩
  | offerRx f pkt =>
    obtain ⟨⟨hnew, hlen⟩, hl⟩ := Option.ite_none_right_eq_some.1 hl
    obtain rfl := Option.some.inj hl
    refine ⟨h.separate_of_same rfl rfl, h.receives.offer h.separate hnew hlen, ?_⟩
    refine h.transmits.frame h.separate rfl rfl rfl rfl fun b hb => ?_
    exact Function.update_of_ne (hb f).symm.ne ..
  | flagsTx flags =>
    obtain rfl := Option.some.inj hl
    refine ⟨h.separate_of_same rfl rfl, h.receives.frame_act rfl rfl rfl rfl rfl, ?_⟩
    obtain ⟨hlt, hn, hloans, hidx, hread⟩ := h.transmits
    have hp : published (m.act (.flagsTx flags)).log = published m.log := by
      show published (m.log ++ _) = _
      rw [published_append]
      exact List.append_nil _
    refine ⟨hlt, hn, hloans, by rwa [hp], fun c hc hr => ?_⟩
    rw [hp] at hc
    have hr : NotReused c (m.log ++ [.kernel (.flagsTx flags)]) := hr
    obtain ⟨h1, h2, h3, h4⟩ := hread c hc hr.of_append
    exact ⟨by rwa [hp], by rwa [hp], by rwa [hp], by rwa [hp]⟩
  | kickTx =>
    obtain rfl := Option.some.inj hl
    exact h.emit (.kernel .kickTx) rfl rfl
  | kickRx =>
    obtain rfl := Option.some.inj hl
    exact h.emit (.kernel .kickRx) rfl rfl

/-- **One step of the kernel or of the firmware** loses, repeats and changes nothing. -/
theorem sound_step (happ : Tidy app) {st st' : Stage} (hs : Step app st st') (h : Sound m₀ st) :
    Sound m₀ st' := by
  cases hs with
  | kernel held m a =>
    refine h.of_log [.kernel a] (by cases a <;> rfl) fun l l' hgood hl => ?_
    obtain ⟨t, ht, hl⟩ := run_cons_eq_some.1 hl
    obtain rfl := Option.some.inj hl
    exact hgood.act a ht
  | @send m tx d held pkt notified hg hd =>
    refine h.of_log [.txTake d, .txWrite d pkt, .txPublish d pkt notified] rfl
      fun l l' hgood hl => ?_
    obtain rfl := Option.some.inj hl
    obtain ⟨hsep, hrx, htx⟩ := hgood
    have haddr : ∀ x, addrAt tx x = addrAt m.tx x := fun x => by
      unfold addrAt
      rw [desc_getBuf hg]
    refine ⟨hsep.of_addr (fun _ => rfl) fun i => ?_, ?_, htx.send hsep hg hd pkt notified⟩
    · exact (addr_publish _ _ hd).trans (by rw [desc_getBuf hg])
    · refine hrx.frame rfl rfl rfl rfl fun x hx => ?_
      show Function.update m.bufs (addrAt tx d) pkt (addrAt m.rx x) = _
      rw [haddr]
      exact Function.update_of_ne (hsep.cross _ _).ne ..
  | @take m rx d hg hd =>
    refine h.of_log [.rxTake d (m.bufs (addrAt rx d))] rfl fun l l' hgood hl => ?_
    obtain rfl := Option.some.inj hl
    exact ⟨hgood.separate_of_same (desc_getBuf hg) rfl, hgood.receives.take hg,
      hgood.transmits.frame hgood.separate rfl rfl rfl rfl fun _ _ => rfl⟩
  | @enter m d zeroAt i hz =>
    refine h.of_log [.cbCall i] rfl fun l l' hgood hl => ?_
    obtain rfl := Option.some.inj hl
    refine ⟨hgood.separate_of_same rfl rfl, hgood.receives.enter hgood.separate happ hz i, ?_⟩
    exact hgood.transmits.frame hgood.separate rfl rfl rfl rfl fun b hb =>
      hgood.receives.bufs_enter happ hz (hb _) i
  | leave d m i =>
    refine h.of_log [.cbReturn i] rfl fun l l' hgood hl => ?_
    obtain rfl := Option.some.inj hl
    exact hgood.emit (.cbReturn i) rfl rfl
  | @give d m called notified hd =>
    refine h.of_log [.rxPublish d notified] rfl fun l l' hgood hl => ?_
    obtain rfl := Option.some.inj hl
    exact ⟨hgood.separate.of_addr (fun i => addr_publish _ _ hd) fun _ => rfl,
      hgood.receives.give hd notified,
      hgood.transmits.frame hgood.separate rfl rfl rfl rfl fun _ _ => rfl⟩

end Step

/-! ### Every run -/

/-- The memory before the kernel and the firmware exchange anything; buffers may have been offered. -/
structure Start (m : Shared) : Prop where
  log : m.log = []
  separate : Separate m
  lt : ∀ d ∈ unreadAvail m.rx ++ unreadAvail m.tx, d.toNat < vringSize
  nodupRx : (unreadAvail m.rx).Nodup
  nodupTx : (unreadAvail m.tx).Nodup
  short : ∀ d ∈ unreadAvail m.rx, (m.bufs (addrAt m.rx d)).len.toNat < dataLenMax

lemma Start.sound {m : Shared} (h : Start m) : Sound m (none, m) := by
  intro l hr
  obtain rfl : Loans.of m = l := by
    rw [show ((none, m) : Stage).2.log = [] from h.log] at hr
    exact Option.some.inj hr
  have hp : published m.log = [] := by
    rw [h.log]
    rfl
  have hidx : m.tx.used.idx = m.tx.used.idx + UInt16.ofNat (published m.log).length := by
    rw [hp]
    exact (UInt16.add_zero _).symm
  refine ⟨h.separate, ⟨?_, h.nodupRx, rfl, fun d hd _ => h.short d hd, ?_⟩, ?_⟩
  · exact fun d hd => h.lt d (List.mem_append_left _ hd)
  · show run Fifo.step (waiting m) (rxOps m.log) = some (waiting m)
    rw [h.log]
    rfl
  · refine ⟨fun d hd => h.lt d (List.mem_append_right _ hd), h.nodupTx, rfl, hidx, fun c hc _ => ?_⟩
    rw [hp] at hc
    exact readable_end h.nodupTx (by rw [hp]; exact Nat.le_zero.1 hc) hidx

/-- What has crossed the two rings since `m₀`. -/
structure Carried (m₀ m : Shared) : Prop where
  /-- the receive ring is a FIFO channel: the packets are taken as they were offered, in this order, each of
  them once -/
  received : run Fifo.step (waiting m₀) (rxOps m.log) = some (waiting m)
  /-- the messages whose buffers were not offered again are found in the used ring, in the order in which
  they were published, and in their buffers as they were published -/
  sent : ∀ c ≤ (published m.log).length, NotReused c m.log →
    usedFrom m₀ c m = ((published m.log).drop c).map entry ∧
      ∀ p ∈ (published m.log).drop c, m.bufs (addrAt m.tx p.1) = p.2

lemma Good.carried {m₀ m : Shared} {l : Loans} {held : Option (UInt16 × Bool)}
    (h : Good m₀ l held m) : Carried m₀ m where
  received := h.receives.received
  sent c hc hr :=
    have hread := h.transmits.readable c hc hr
    ⟨hread.used, hread.holds⟩

section Run

variable {κ α : Type} {app : App κ α} {env : Env} {s₀ s : Fw κ α}

lemma carried_of_reaches {st : Stage} (happ : Tidy app) (h : Start (shared s₀))
    (hr : Reaches app (none, shared s₀) st) (hh : Honest (shared s₀) st.2.log) :
    Carried (shared s₀) st.2 := by
  obtain ⟨l, hl⟩ := Option.isSome_iff_exists.1 hh
  exact (hr.keep (fun _ _ hs => sound_step happ hs) h.sound l hl).carried

/-- **The two rings are FIFO channels**, in every run of the calls of the transport with a kernel that
offers only buffers it owns. -/
theorem carried_run {calls : List (Call κ)} (happ : Tidy app) (h : Start (shared s₀))
    (hr : run (step app env) s₀ calls = some s) (hh : Honest (shared s₀) s.log) :
    Carried (shared s₀) (shared s) :=
  carried_of_reaches happ h (steps_run hr) hh

end Run

/-! ### An echo -/

/-- The buffers of a ring follow each other from `base` on. -/
def bufAddr (base : UInt32) (i : Fin vringSize) : UInt32 := base + 512 * UInt32.ofNat i

lemma toNat_bufAddr (base : UInt32) (i : Fin vringSize) (hb : base.toNat < 2 ^ 31) :
    (bufAddr base i).toNat = base.toNat + 512 * i := by
  have hi : (i : ℕ) < 256 := i.isLt
  have h1 : (UInt32.ofNat i).toNat = i := UInt32.toNat_ofNat_of_lt' (hi.trans (by decide))
  have h2 : (512 * UInt32.ofNat i).toNat = 512 * i := by
    rw [UInt32.toNat_mul, h1, show (512 : UInt32).toNat = 512 from rfl]
    exact Nat.mod_eq_of_lt (by omega)
  rw [bufAddr, UInt32.toNat_add, h2]
  exact Nat.mod_eq_of_lt (by omega)

lemma apart_of_toNat {a b : UInt32} (h : a.toNat + packetLenMax ≤ b.toNat) (hb : b.toNat ≤ 2 ^ 31) :
    Apart a b := by
  have hmax : packetLenMax = 512 := rfl
  constructor <;> rw [UInt32.toNat_sub] <;> omega

lemma apart_bufAddr {base : UInt32} (hb : base.toNat < 2 ^ 30) {i j : Fin vringSize} (hne : i ≠ j) :
    Apart (bufAddr base i) (bufAddr base j) := by
  have hmax : packetLenMax = 512 := rfl
  have hi' : (i : ℕ) < 256 := i.isLt
  have hj' : (j : ℕ) < 256 := j.isLt
  have hi := toNat_bufAddr base i (hb.trans (by decide))
  have hj := toNat_bufAddr base j (hb.trans (by decide))
  rcases Nat.lt_or_gt_of_ne fun e => hne (Fin.ext e) with hlt | hlt
  · exact apart_of_toNat (by omega) (by omega)
  · exact (apart_of_toNat (by omega) (by omega)).symm

/-- The firmware with the buffers of its receive ring at `0x10000000` and those of its transmit ring at
`0x20000000`. -/
def echoFw : Fw Unit Unit :=
  let s := remoteprocInit (Fw.loaded ())
  { s with
    rx := { s.rx with desc := fun i => ⟨bufAddr 0x10000000 i, 0, 512, 0, 0⟩ }
    tx := { s.tx with desc := fun i => ⟨bufAddr 0x20000000 i, 0, 512, 0, 0⟩ } }

/-- Three transmit buffers and two messages, the second of which comes while the first is answered. -/
def echoEnv : Env
  | 0 => [[.offerTx 7]]
  | 1 => [[.offerTx 2, .offerRx 5 ⟨0x400, 0x50, 0, 1, 0, .zero _⟩, .kickRx]]
  | 5 => [[.offerRx 3 ⟨0x401, 0x50, 0, 2, 0, .zero _⟩, .offerTx 0]]
  | _ => [[]]

lemma start_echo : Start (shared echoFw) := by
  have hrx : unreadAvail (shared echoFw).rx = [] := unread_self _ (UInt16.toNat_lt_size 0)
  have htx : unreadAvail (shared echoFw).tx = [] := unread_self _ (UInt16.toNat_lt_size 0)
  have hsep : Separate (shared echoFw) := by
    refine ⟨fun _ _ => apart_bufAddr (by decide), fun _ _ => apart_bufAddr (by decide), fun i j => ?_⟩
    have hi := toNat_bufAddr 0x10000000 i (by decide)
    have hj := toNat_bufAddr 0x20000000 j (by decide)
    have hi' : (i : ℕ) < 256 := i.isLt
    have hj' : (j : ℕ) < 256 := j.isLt
    have h1 : (0x10000000 : UInt32).toNat = 0x10000000 := rfl
    have h2 : (0x20000000 : UInt32).toNat = 0x20000000 := rfl
    have hmax : packetLenMax = 512 := rfl
    exact apart_of_toNat (a := bufAddr 0x10000000 i) (b := bufAddr 0x20000000 j) (by omega) (by omega)
  refine ⟨rfl, hsep, ?_, ?_, ?_, ?_⟩
  · rw [hrx, htx]
    exact fun d hd => absurd hd List.not_mem_nil
  · rw [hrx]
    exact List.nodup_nil
  · rw [htx]
    exact List.nodup_nil
  · rw [hrx]
    exact fun d hd => absurd hd List.not_mem_nil

lemma tidy_echo : Tidy echo := by
  rintro pkt k ⟨c, i, a, r, hr, hk⟩
  obtain rfl := Option.some.inj hr
  cases hk

/-- The firmware announces a channel and answers two messages. -/
def echoCalls : List (Call Unit) := [.create ⟨[0x61], a_noNul⟩ (some ()), .poll 3]

theorem carried_echo : ∃ s, run (step echo echoEnv) echoFw echoCalls = some s ∧
    (Fifo.takes (rxOps s.log)).map Prod.fst = [5, 3] ∧ (published s.log).map Prod.fst = [7, 2, 0] ∧
    Carried (shared echoFw) (shared s) := by
  have h : (run (step echo echoEnv) echoFw echoCalls).any (fun s =>
      (run Loans.next (.of (shared echoFw)) s.log).isSome &&
        decide ((Fifo.takes (rxOps s.log)).map Prod.fst = [5, 3] ∧ (published s.log).map Prod.fst = [7, 2, 0])) =
      true := by decide +kernel
  obtain ⟨s, hs, h'⟩ := (Option.any_eq_true ..).1 h
  obtain ⟨hh, hlog⟩ := Bool.and_eq_true_iff.1 h'
  obtain ⟨h1, h2⟩ := of_decide_eq_true hlog
  exact ⟨s, hs, h1, h2, carried_run tidy_echo start_echo hs hh⟩

end CfgMgmt.Firmware.Delivery
