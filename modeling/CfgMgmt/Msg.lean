import CfgMgmt.Lib.Bytes

/-!
# The messages between the kernel module and the firmware

`cfgMsg_t` is declared packed, and identically, in `rpmsg_link.h` and in `config.c`; so are the
request and response codes of its `type` member.  On the wire a message is its 420 bytes.
-/

namespace CfgMgmt.Msg

open CfgMgmt.Lib.Bytes

/-! ### Request and response codes -/

def reqNop : UInt32 := 0
def reqNVars : UInt32 := 1
/-- `REQ_WR` of the firmware, `REQ_WR_VAL` of the kernel module. -/
def reqWr : UInt32 := 2
/-- `REQ_RD` of the firmware, `REQ_RD_VAL` of the kernel module. -/
def reqRd : UInt32 := 3
def reqRdMin : UInt32 := 4
def reqRdMax : UInt32 := 5
def reqName : UInt32 := 6
def reqDesc : UInt32 := 7

def resOk : UInt32 := 128
def resNVars : UInt32 := 129
def resIdErr : UInt32 := 130
def resRdVal : UInt32 := 131
def resRdMin : UInt32 := 132
def resRdMax : UInt32 := 133
def resName : UInt32 := 134
def resDesc : UInt32 := 135
def resReqErr : UInt32 := 255

/-! ### Numbers of variables -/

-- a number of variables is an `int32_t`
lemma zero_lt_limit : 0 < 2 ^ 31 := by decide

lemma one_lt_limit : 1 < 2 ^ 31 := by decide

/-! ### Packets -/

abbrev packetLenMax : ℕ := 512

/-- `DATA_LEN_MAX`: a packet less its `struct rpmsg_hdr`. -/
abbrev dataLenMax : ℕ := packetLenMax - 16

/-! ### The message -/

abbrev msgDataSize : ℕ := 400

/-- `cfgMsg_t`. -/
structure CfgMsg where
  seq : UInt32
  type : UInt32
  ind : Int32
  val : Int32
  len : UInt32
  data : Buf msgDataSize
  deriving DecidableEq

/-- `sizeof(cfgMsg_t)`. -/
abbrev sizeofCfgMsg : ℕ := 20 + msgDataSize

/-- A message as it lies in memory before anything was written to it. -/
def CfgMsg.zero : CfgMsg := ⟨0, 0, 0, 0, 0, Buf.zero _⟩

def CfgMsg.encode (m : CfgMsg) : List UInt8 :=
  u32Bytes m.seq ++ u32Bytes m.type ++ u32Bytes m.ind.toUInt32 ++ u32Bytes m.val.toUInt32 ++
    u32Bytes m.len ++ m.data.bytes

/-- The message in the first bytes of a memory region that is at least as large as a message. -/
def CfgMsg.decode (bs : List UInt8) (h : sizeofCfgMsg ≤ bs.length) : CfgMsg where
  seq := u32At bs 0
  type := u32At bs 4
  ind := (u32At bs 8).toInt32
  val := (u32At bs 12).toInt32
  len := u32At bs 16
  data := ⟨(bs.drop 20).take msgDataSize, by simp [sizeofCfgMsg] at h ⊢; omega⟩

@[simp] lemma CfgMsg.length_encode (m : CfgMsg) : m.encode.length = sizeofCfgMsg := by
  simp only [encode, List.length_append, length_u32Bytes, m.data.size]

/-- **A message is read back from its bytes**, whatever follows them in memory. -/
theorem CfgMsg.decode_encode_append (m : CfgMsg) (rest : List UInt8)
    (h : sizeofCfgMsg ≤ (m.encode ++ rest).length) : decode (m.encode ++ rest) h = m := by
  have h0 := u32At_append [] (u32Bytes m.type ++ (u32Bytes m.ind.toUInt32 ++
    (u32Bytes m.val.toUInt32 ++ (u32Bytes m.len ++ (m.data.bytes ++ rest))))) m.seq
  have h4 := u32At_append (u32Bytes m.seq) (u32Bytes m.ind.toUInt32 ++
    (u32Bytes m.val.toUInt32 ++ (u32Bytes m.len ++ (m.data.bytes ++ rest)))) m.type
  have h8 := u32At_append (u32Bytes m.seq ++ u32Bytes m.type)
    (u32Bytes m.val.toUInt32 ++ (u32Bytes m.len ++ (m.data.bytes ++ rest))) m.ind.toUInt32
  have h12 := u32At_append (u32Bytes m.seq ++ u32Bytes m.type ++ u32Bytes m.ind.toUInt32)
    (u32Bytes m.len ++ (m.data.bytes ++ rest)) m.val.toUInt32
  have h16 := u32At_append (u32Bytes m.seq ++ u32Bytes m.type ++ u32Bytes m.ind.toUInt32 ++
    u32Bytes m.val.toUInt32) (m.data.bytes ++ rest) m.len
  have h20 : ((m.encode ++ rest).drop 20).take msgDataSize = m.data.bytes := by
    have e : m.encode ++ rest = (u32Bytes m.seq ++ u32Bytes m.type ++ u32Bytes m.ind.toUInt32 ++
      u32Bytes m.val.toUInt32 ++ u32Bytes m.len) ++ (m.data.bytes ++ rest) := by
      simp [encode, List.append_assoc]
    rw [e, List.drop_left' (by simp), List.take_left' m.data.size]
  simp only [List.append_assoc, List.length_append, length_u32Bytes, List.nil_append,
    List.length_nil] at h0 h4 h8 h12 h16
  cases m with
  | mk seq type ind val len data =>
    simp only [decode, encode, List.append_assoc, CfgMsg.mk.injEq] at h0 h4 h8 h12 h16 h20 ⊢
    refine ⟨h0, h4, ?_, ?_, h16, Buf.ext h20⟩
    · rw [h8]; exact Int32.toInt32_toUInt32 ind
    · rw [h12]; exact Int32.toInt32_toUInt32 val

theorem CfgMsg.decode_encode (m : CfgMsg) :
    decode m.encode (by rw [length_encode]) = m := by
  simpa using m.decode_encode_append [] (by simp)

/-- The message in received data, if they have the length of a message. -/
def CfgMsg.received (data : List UInt8) : Option CfgMsg :=
  if h : data.length = sizeofCfgMsg then some (decode data h.ge) else none

theorem CfgMsg.received_encode (m : CfgMsg) : received m.encode = some m := by
  unfold received
  rw [dif_pos m.length_encode, decode_encode]

end CfgMgmt.Msg
