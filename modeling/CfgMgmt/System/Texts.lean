import CfgMgmt.Firmware.ConfigRefinement
import CfgMgmt.Firmware.Sending
import CfgMgmt.Kernel.RpmsgLink

/-!
# Texts on the link

A name or a description reaches the transaction struct unchanged if and only if it fits behind a
`cfgMsg_t` in the transmit buffer of the firmware (`text_crosses_iff`), although the data field of the
message, the packet and the buffer of the struct have room for more.
-/

namespace CfgMgmt.System.Texts

open CfgMgmt.Lib.Bytes CfgMgmt.Msg CfgMgmt.Firmware.Config CfgMgmt.Firmware.RegisterMap
open CfgMgmt.Firmware.ConfigRefinement CfgMgmt.Firmware.Remoteproc CfgMgmt.Firmware.Sending
open CfgMgmt.Kernel.RpmsgLink

variable {n : VarCount} {κ δ ε ω : Type} {sem : CbSem n κ δ ε ω}

/-! ### One exchange -/

/-- The request `req` on its way through the firmware and back: `config_msg_handler` hands its reply to
`rpmsg_send`, which fills a packet over `old`, and the payload of the packet reaches
`cfg_mgmt_rpmsg_cb`. -/
def exchange (sem : CbSem n κ δ ε ω) (req : CfgMsg) (s : Cfg n κ δ ε ω) (src dst : UInt32)
    (old : Packet) (l : Link) : Option Link := do
  let s ← configMsgHandler sem req s
  let pkt := fillPacket old src dst s.txBuf.encode
  some (l.rpmsgCb (pkt.data.read pkt.len.toNat))

def textOf (v : CfgVar κ δ) (req : CfgMsg) : Option CStr :=
  if req.type = reqName then some v.name
  else if req.type = reqDesc then some v.desc
  else none

/-- The struct holds the text, with a terminating 0 and without an error. -/
structure Holds (text : CStr) (x : Transaction) : Prop where
  err : x.err = 0
  len : x.len.toInt = text.strlen
  buf : x.buf.read text.strlen = text.bytes
  terminated : x.buf.bytes[text.strlen]? = some 0

lemma read_fillPacket (old : Packet) (src dst : UInt32) (m : CfgMsg) :
    (fillPacket old src dst m.encode).data.read (fillPacket old src dst m.encode).len.toNat =
      m.encode := by
  have hp : payload m.encode = m.encode := by
    unfold payload
    rw [List.take_of_length_le]
    rw [m.length_encode]
    decide
  obtain ⟨-, -, hlen, rest, hdata⟩ := isMessage_fillPacket old src dst m.encode
  unfold Buf.read
  rw [hlen, hdata, hp, List.take_left]

variable {k : Fin n.1} {req : CfgMsg} {s : Cfg n κ δ ε ω} {l : Link} {t : Ptr} {text : CStr}
  {src dst : UInt32} {old : Packet}

lemma carriesText_of_textOf {rep : CfgMsg} (hk : entry? n req.ind = some k)
    (ht : textOf (s.w.vars k) req = some text)
    (hc : Carries rep ((regMap sem).serve s.w (query n req)).2) :
    (rep.type = resName ∨ rep.type = resDesc) ∧ CarriesText text.bytes rep := by
  unfold textOf at ht
  split at ht
  · rename_i hn
    obtain rfl := Option.some.inj ht
    have hq : query n req = .name k := by
      unfold query
      rw [hn, hk]
      rfl
    rw [hq] at hc
    exact ⟨.inl hc.1, hc.2⟩
  · obtain ⟨hd, ht⟩ := Option.ite_none_right_eq_some.1 ht
    obtain rfl := Option.some.inj ht
    have hq : query n req = .desc k := by
      unfold query
      rw [hd, hk]
      rfl
    rw [hq] at hc
    exact ⟨.inr hc.1, hc.2⟩

lemma holds_complete_iff {rep : CfgMsg} (hl : text.strlen ≤ msgDataSize - 1)
    (ht : rep.type = resName ∨ rep.type = resDesc) (hc : CarriesText text.bytes rep)
    (x : Transaction) :
    Holds text (Link.complete rep x) ↔ text.strlen ≤ cfgBufLen - sizeofCfgMsg := by
  have hlen : rep.len.toNat = min text.strlen (cfgBufLen - sizeofCfgMsg) := hc.1
  have hle : ¬ rep.len.toNat > ioBufSize - 1 := by
    have h : min text.strlen (cfgBufLen - sizeofCfgMsg) ≤ ioBufSize - 1 := (Nat.min_le_left ..).trans hl
    omega
  have hint : rep.len.toInt32.toInt = rep.len.toNat := by
    have h : min text.strlen (cfgBufLen - sizeofCfgMsg) ≤ 76 := Nat.min_le_right ..
    exact toInt_toInt32 (by omega)
  rw [Link.complete_text x ht hle]
  constructor
  · intro h
    have e : rep.len.toInt32.toInt = text.strlen := h.len
    omega
  · intro hfit
    have hfull : rep.len.toNat = text.strlen := hlen.trans (min_eq_left hfit)
    have hdata : rep.data.read rep.len.toNat = text.bytes := by
      rw [hc.2, hfull]
      exact List.take_length
    have hbytes : (x.buf.write 0 (rep.data.read rep.len.toNat ++ [0]) (Link.data_fits hle)).bytes =
        text.bytes ++ 0 :: x.buf.bytes.drop (text.strlen + 1) := by
      simp [Buf.write, hdata, CStr.strlen]
    refine ⟨rfl, hint.trans (congrArg _ hfull), ?_, ?_⟩
    · exact (congrArg (List.take text.strlen) hbytes).trans List.take_left
    · refine (congrArg (·[text.strlen]?) hbytes).trans ?_
      simp [CStr.strlen]

/-- **A name or a description crosses the link unchanged if and only if** it fits behind a `cfgMsg_t` in
the transmit buffer, for every table and every request for it, whichever pending struct waits for the
reply. -/
theorem text_crosses_iff (hk : entry? n req.ind = some k) (ht : textOf (s.w.vars k) req = some text)
    (hl : text.strlen ≤ msgDataSize - 1)
    (hp : (l.pendingList.find? fun t => (l.trans t).msgSeqNr = req.seq) = some t) :
    ∃ l', exchange sem req s src dst old l = some l' ∧
      (Holds text (l'.trans t) ↔ text.strlen ≤ cfgBufLen - sizeofCfgMsg) := by
  obtain ⟨rep, hrep, hseq, -, hc⟩ := configMsgHandler_serves sem req s
  obtain ⟨htype, htext⟩ := carriesText_of_textOf hk ht hc
  refine ⟨l.rpmsgCb rep.encode, ?_, ?_⟩
  · unfold exchange
    rw [hrep]
    exact congrArg (fun data => some (l.rpmsgCb data)) (read_fillPacket old src dst rep)
  · have htrans : (l.rpmsgCb rep.encode).trans t = Link.complete rep (l.trans t) := by
      rw [l.rpmsgCb_of_find (hseq ▸ hp)]
      exact Function.update_self ..
    rw [htrans]
    exact holds_complete_iff hl htype htext _

/-! ### Two names -/

/-- A firmware with one variable of the given name. -/
def named (name : CStr) : Cfg ⟨1, one_lt_limit⟩ Empty Unit Unit Empty :=
  ⟨⟨fun _ => ⟨1, name, .empty, 0, 0, 1000, none, (), none, ()⟩, (), []⟩, .zero⟩

def noCbs : CbSem ⟨1, one_lt_limit⟩ Empty Unit Unit Empty := fun c => c.elim

/-- The request for the name of the variable 0. -/
def nameReq : CfgMsg := { CfgMsg.zero with type := reqName }

/-- The link layer after this request was sent for the struct 15. -/
def asked : Link :=
  { Link.rpmsgLinkInit with
    pendingList := [15], unusedList := (List.range 15).reverse, drawn := 1, wire := [nameReq] }

def txBuffer : Packet := ⟨0, 0, 0, 0, 0, .zero dataLenMax⟩

lemma gain_noNul : (0 : UInt8) ∉ [103, 97, 105, 110] := by decide

def gain : CStr := ⟨[103, 97, 105, 110], gain_noNul⟩

theorem gain_crosses : ∃ l', exchange noCbs nameReq (named gain) 0x51 0x400 txBuffer asked = some l' ∧
    Holds gain (l'.trans 15) := by
  have h : ∃ l', exchange noCbs nameReq (named gain) 0x51 0x400 txBuffer asked = some l' ∧
      (Holds gain (l'.trans 15) ↔ gain.strlen ≤ cfgBufLen - sizeofCfgMsg) :=
    text_crosses_iff (k := 0) rfl rfl (by decide) rfl
  obtain ⟨l', he, hiff⟩ := h
  exact ⟨l', he, hiff.2 (by decide)⟩

/-- 77 times the letter A. -/
def longName : CStr := ⟨List.replicate 77 65, by decide⟩

/-- **A name of 77 characters is cut**, although it is short enough for the kernel. -/
theorem longName_cut : longName.strlen ≤ msgDataSize - 1 ∧
    ∃ l', exchange noCbs nameReq (named longName) 0x51 0x400 txBuffer asked = some l' ∧
      ¬ Holds longName (l'.trans 15) := by
  have h : (exchange noCbs nameReq (named longName) 0x51 0x400 txBuffer asked).any
      fun l' => (l'.trans 15).len = 76 := by decide +kernel
  obtain ⟨l', he, hlen⟩ := (Option.any_eq_true ..).1 h
  refine ⟨by decide, l', he, fun hh => ?_⟩
  have hlen' := hh.len
  rw [of_decide_eq_true hlen] at hlen'
  exact absurd hlen' (by decide)

end CfgMgmt.System.Texts
