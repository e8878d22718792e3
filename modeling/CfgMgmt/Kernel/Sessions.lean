import CfgMgmt.Kernel.Calls

/-!
# What a client's calls do

The effect of each call on the struct of its file, on the list of pending structs and on the wire, when
the transport accepts every request and no wait is interrupted.
-/

namespace CfgMgmt.Kernel.Sessions

open CfgMgmt.Lib.Bytes CfgMgmt.Msg CfgMgmt.Kernel.Linux CfgMgmt.Kernel.RpmsgLink
open CfgMgmt.Kernel.Files CfgMgmt.Kernel.Structs CfgMgmt.Kernel.Calls

/-- The request was sent for the struct `t`, whose content was `x`. -/
structure Requested (t : Ptr) (x : Transaction) (m : CfgMsg) (l l' : Link) : Prop where
  pendingList : l'.pendingList = t :: l.pendingList
  drawn : l'.drawn = l.drawn + 1
  number : l'.number = Function.update l.number t l.drawn
  trans : l'.trans t = { x with msgSeqNr := UInt32.ofNat l.drawn }
  wire : l'.wire = l.wire ++ [m]
  seq : m.seq = UInt32.ofNat l.drawn

/-- No request was sent. -/
structure Unsent (l l' : Link) : Prop where
  pendingList : l'.pendingList = l.pendingList
  drawn : l'.drawn = l.drawn
  number : l'.number = l.number
  wire : l'.wire = l.wire

lemma Unsent.refl (l : Link) : Unsent l l := ⟨rfl, rfl, rfl, rfl⟩

lemma Unsent.trans' {l l₁ l₂ : Link} (h : Unsent l l₁) (h' : Unsent l₁ l₂) : Unsent l l₂ :=
  ⟨h'.pendingList.trans h.pendingList, h'.drawn.trans h.drawn, h'.number.trans h.number,
    h'.wire.trans h.wire⟩

lemma Requested.of_unsent {t : Ptr} {x : Transaction} {m : CfgMsg} {l l₁ l' : Link}
    (h : Requested t x m l₁ l') (hu : Unsent l l₁) : Requested t x m l l' where
  pendingList := by rw [h.pendingList, hu.pendingList]
  drawn := by rw [h.drawn, hu.drawn]
  number := by rw [h.number, hu.number, hu.drawn]
  trans := by rw [h.trans, hu.drawn]
  wire := by rw [h.wire, hu.wire]
  seq := by rw [h.seq, hu.drawn]

lemma Requested.wire_last {t : Ptr} {x : Transaction} {m : CfgMsg} {l l' : Link}
    (h : Requested t x m l l') : l'.wire[l.wire.length]? = some m := by
  rw [h.wire, List.getElem?_concat_length]

/-- The request type that reads what a file shows. -/
def readType : Access → UInt32
  | .name => reqName
  | .val => reqRd
  | .min => reqRdMin
  | .max => reqRdMax
  | .desc => reqDesc
  | .unknown => reqNop

section Requests

variable {kstrtol : List UInt8 → Int32 × Int32} {l : Link} {t : Ptr} {index : Int32}

lemma prepare_reads {acc : Access} (hr : (l.trans t).rnw = true) (ha : acc ≠ .unknown) :
    l.prepare kstrtol index acc t =
      (0, { l.accessReq with ind := index, val := 0, len := 0, type := readType acc }) := by
  cases acc with
  | unknown => exact absurd rfl ha
  | val => simp [Link.prepare, Link.accessFields, hr, readType]
  | _ => rfl

lemma prepare_writes (hr : (l.trans t).rnw = false)
    (hk : (kstrtol (Link.text (l.trans t))).1 = 0) :
    l.prepare kstrtol index .val t =
      (0, { l.accessReq with
        ind := index, val := (kstrtol (Link.text (l.trans t))).2, len := 0, type := reqWr }) := by
  simp [Link.prepare, Link.accessFields, hr, hk]

/-- `access_var` sends the request that is built without an error. -/
lemma accessVar_sends {k : Driver} {file : File} (info : VarAccessInfo) {req : CfgMsg}
    (hc : k.link.chnl = true)
    (hp : k.link.prepare kstrtol info.index info.type file.privateData = (0, req)) :
    (k.accessVar kstrtol file info 0).1 = 0 ∧
      Requested file.privateData (k.link.trans file.privateData)
        { req with seq := UInt32.ofNat k.link.drawn } k.link (k.accessVar kstrtol file info 0).2.link := by
  have h0 : (k.link.prepare kstrtol info.index info.type file.privateData).1 = 0 := by rw [hp]
  unfold Driver.accessVar
  rw [Link.accessVar_of_eq hc h0, Link.rpmsgSend_eq, hp]
  exact ⟨rfl, rfl, rfl, rfl, Function.update_self .., rfl, rfl⟩

end Requests

variable {kstrtol : List UInt8 → Int32 × Int32} {k k' : Driver} {f : FileId} {file : File}
  {info : VarAccessInfo}

/-- **Opening a file for reading** sends a request for what it shows. -/
theorem openVar_reads {fModeWrite nonblock mem : Bool} (h : Sane k) (ha : info.type ≠ .unknown)
    (hs : k.debugfsOpenVar kstrtol f info true fModeWrite nonblock mem 0 = some k') :
    ∃ t x m, k'.files f = some ⟨.var info, true, fModeWrite, nonblock, 0, t, .ready⟩ ∧
      Requested t x m k.link k'.link ∧ x.rnw = true ∧ x.valid = false ∧
      m.ind = info.index ∧ m.type = readType info.type := by
  unfold Driver.debugfsOpenVar at hs
  obtain ⟨⟨t, link⟩, hal, hs⟩ := Option.bind_eq_some_iff.1 hs
  have hal := Link.allocTrans_spec hal
  dsimp only at hs
  generalize hfile : (⟨.var info, true, fModeWrite, nonblock, 0, t, .ready⟩ : File) = file at hs
  generalize hk : Driver.modifyTrans file (fun x => { x with rnw := true, wq := true })
    (Driver.setFile f (some file) { k with link }) = k₁ at hs
  have ht : file.privateData = t := hfile ▸ rfl
  have hx : k₁.link.trans file.privateData = { Transaction.zero with rnw := true, wq := true } := by
    rw [← hk, modifyTrans_trans_self, setFile_link, ht, hal.trans_self]
  have hc : k₁.link.chnl = true := by
    rw [← hk]
    exact hal.chnl.trans h.chnl
  obtain ⟨h0, hreq⟩ := accessVar_sends info hc (prepare_reads (by rw [hx]) ha)
  rw [if_pos rfl, h0, if_pos rfl] at hs
  obtain rfl := Option.some.inj hs
  have hu : Unsent k.link k₁.link := by
    rw [← hk]
    exact ⟨hal.pendingList, hal.drawn, hal.number, hal.wire⟩
  have hf : k₁.files f = some file := by
    rw [← hk]
    exact setFile_files_self _
  rw [hx, ht] at hreq
  refine ⟨t, _, _, hfile ▸ hf, hreq.of_unsent hu, rfl, rfl, rfl, rfl⟩

/-- **Opening a file for writing only** sends nothing. -/
theorem openVar_writes {nonblock mem : Bool} {send : Int32} (h : Sane k)
    (hs : k.debugfsOpenVar kstrtol f info false true nonblock mem send = some k') :
    ∃ t, k'.files f = some ⟨.var info, false, true, nonblock, 0, t, .ready⟩ ∧
      Unsent k.link k'.link ∧ t ∉ k'.link.pendingList ∧
      k'.link.trans t = { Transaction.zero with rnw := false, valid := true } := by
  unfold Driver.debugfsOpenVar at hs
  obtain ⟨⟨t, link⟩, ha, hs⟩ := Option.bind_eq_some_iff.1 hs
  have hal := Link.allocTrans_spec ha
  obtain rfl := Option.some.inj hs
  refine ⟨t, setFile_files_self _, ⟨hal.pendingList, hal.drawn, hal.number, hal.wire⟩, ?_, ?_⟩
  · obtain ⟨q, hq, -⟩ := take_pool hal
    have hnp : t ∉ k.link.pendingList := (h.sound.take hq).2.2.2.1
    rw [← hal.pendingList] at hnp
    exact hnp
  · show (link.modify t fun x => { x with rnw := false, valid := true }).trans t = _
    rw [Link.modify_trans_self, hal.trans_self]

/-- **Reading a file** whose reply has arrived returns a part of its buffer. -/
theorem readVar_valid {len uncopied : ℕ} {own : Option ℤ} {intr : Bool} (hf : k.files f = some file)
    (hv : (k.transOf file).valid = true) (he : (k.transOf file).err = 0)
    (hs : k.debugfsReadVar f file len own intr uncopied = some k') :
    k'.link = k.link ∧ (∃ pos, k'.files f = some { file with pos }) ∧
      k'.log = k.log ++ [(f, .read (simpleReadFromBuffer len (own.getD file.pos)
        (k.transOf file).buf.bytes (k.transOf file).len.toUInt32.toNat uncopied).1)] := by
  unfold Driver.debugfsReadVar at hs
  simp only [hv, he, Bool.not_true, Bool.false_eq_true, if_false, ne_eq, not_true_eq_false] at hs
  obtain rfl := Option.some.inj hs
  refine ⟨?_, seek_files hf own _, ?_⟩
  · cases own <;> rfl
  · cases own <;> rfl

/-- **Writing to a file** changes the text of its struct. -/
theorem writeVar_link (data : List UInt8) (own : Option ℤ) (uncopied : ℕ)
    (hf : k.files f = some file) :
    Unsent k.link (k.debugfsWriteVar f file data own uncopied).link ∧
      (∃ pos, (k.debugfsWriteVar f file data own uncopied).files f = some { file with pos }) ∧
      (k.debugfsWriteVar f file data own uncopied).link.trans file.privateData =
        { k.link.trans file.privateData with
          dirty := true
          buf := (simpleWriteToBuffer (k.transOf file).buf (own.getD file.pos) data uncopied).2.2 } := by
  refine ⟨?_, ?_, ?_⟩
  · cases own <;> exact ⟨rfl, rfl, rfl, rfl⟩
  · cases own with
    | none => exact ⟨_, setFile_files_self _⟩
    | some _ => exact ⟨_, hf⟩
  · cases own <;> simp [Driver.debugfsWriteVar, Driver.seek, Driver.transOf]

/-- The text that closing the file hands to `kstrtol`. -/
def closingText (k : Driver) (file : File) : List UInt8 :=
  Link.text { k.transOf file with valid := false }

/-- **Closing a file** returns its struct, or sends a request: for the value that was written, or, when
the file was opened for reading as well, once more for the value of the variable. -/
theorem releaseVar_sends (h : Sane k)
    (hs : k.debugfsReleaseVar kstrtol f file 0 = some k') :
    (¬ WritesBack kstrtol k file ∧ Unsent k.link k'.link ∧ k'.files f = none ∧
      ∃ ret, k'.log = k.log ++ [(f, .released ret)] ∧
        (file.fModeWrite = true → (k.transOf file).dirty = true → ret ≠ 0)) ∨
    (WritesBack kstrtol k file ∧ k'.log = k.log ∧ ∃ i m, file.inode = .var ⟨i, .val⟩ ∧
      k'.files f = some { file with phase := .closing } ∧
      Requested file.privateData { k.transOf file with wq := true, valid := false } m k.link k'.link ∧
      m.ind = i ∧ if (k.transOf file).rnw then m.type = reqRd
        else m.type = reqWr ∧ m.val = (kstrtol (closingText k file)).2) := by
  rcases debugfsReleaseVar_cases h.chnl hs with ⟨hn, req, ret, hret, rfl⟩ | ⟨hw, i, hi, rfl⟩
  · exact .inl ⟨hn, ⟨rfl, rfl, rfl, rfl⟩, closed_files_self ret, ret, rfl, hret⟩
  · rw [if_pos rfl]
    refine .inr ⟨hw, rfl, i, ?_⟩
    generalize hk : k.modifyTrans file (fun x => { x with wq := true, valid := false }) = k₁
    have hx : k₁.link.trans file.privateData =
        { k.transOf file with wq := true, valid := false } := by
      rw [← hk]
      exact modifyTrans_trans_self _
    have hc : k₁.link.chnl = true := by
      rw [← hk]
      exact h.chnl
    have hu : Unsent k.link k₁.link := by
      rw [← hk]
      exact ⟨rfl, rfl, rfl, rfl⟩
    have hsend : ∀ req, k₁.link.prepare kstrtol i .val file.privateData = (0, req) →
        Requested file.privateData { k.transOf file with wq := true, valid := false }
          { req with seq := UInt32.ofNat k₁.link.drawn } k.link
          (writeBack kstrtol ⟨i, .val⟩ 0 file k).link := by
      intro req hreq
      have hr := (accessVar_sends ⟨i, .val⟩ hc hreq).2
      rw [hx] at hr
      unfold writeBack
      rw [hk]
      exact hr.of_unsent hu
    cases hr : (k.transOf file).rnw with
    | true =>
      refine ⟨_, hi, setPhase_files_self _, hsend _ (prepare_reads (by rw [hx]; exact hr) nofun), rfl, ?_⟩
      rfl
    | false =>
      have hk0 : (kstrtol (Link.text (k₁.link.trans file.privateData))).1 = 0 := by
        rw [hx]
        exact (hw.2.2.choose_spec.2).resolve_left (by rw [hr]; exact Bool.false_ne_true)
      refine ⟨_, hi, setPhase_files_self _, hsend _ (prepare_writes (by rw [hx]; exact hr) hk0), rfl, ?_⟩
      simp only [Bool.false_eq_true, if_false, true_and]
      rw [hx]
      rfl

lemma releaseVarWoken_waits (hs : k.debugfsReleaseVarWoken f file false = some k') :
    (k.transOf file).valid = true := by
  by_contra hv
  unfold Driver.debugfsReleaseVarWoken at hs
  simp [hv] at hs

/-- **A close that has waited for its reply** returns the struct. -/
theorem releaseVarWoken_valid {intr : Bool} (hv : (k.transOf file).valid = true)
    (he : (k.transOf file).err = 0) (hs : k.debugfsReleaseVarWoken f file intr = some k') :
    k' = (k.returnTrans file).closed f 0 := by
  unfold Driver.debugfsReleaseVarWoken at hs
  simp only [hv, he, Bool.not_true, Bool.false_eq_true, if_false, ne_eq, not_true_eq_false] at hs
  exact (Option.some.inj hs).symm

end CfgMgmt.Kernel.Sessions
