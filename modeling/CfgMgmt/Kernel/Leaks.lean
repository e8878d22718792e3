import CfgMgmt.Kernel.Hands

/-!
# Transaction structs that are lost

A struct is lost when it is not unused and no file has it: nothing returns it any more.  `get_n_vars`
takes a struct that nobody returns, and a close whose reply reports an error keeps its struct.  In a run
without failures nothing else is lost (`no_leak_iff`).
-/

namespace CfgMgmt.Kernel.Leaks

open CfgMgmt.Lib CfgMgmt.Lib.Machine CfgMgmt.Msg CfgMgmt.Kernel.Linux CfgMgmt.Kernel.RpmsgLink
open CfgMgmt.Kernel.Files CfgMgmt.Kernel.Structs CfgMgmt.Kernel.Calls CfgMgmt.Kernel.Sessions
open CfgMgmt.Kernel.Hands

/-! ### The replies that are awaited -/

/-- The sequence numbers of the requests whose replies are awaited after a step from `k` to `k'`. -/
def awaited (k k' : Driver) (out : List UInt32) : Event → List UInt32
  | .reply data =>
    match CfgMsg.received data with
    | some response => out.erase response.seq
    | none => out
  | _ => out ++ (k'.link.wire.drop k.link.wire.length).map CfgMsg.seq

/-- A step of the module, with the replies that are awaited. -/
def watch (kstrtol : List UInt8 → Int32 × Int32) (s : Driver × List UInt32) (e : Event) :
    Option (Driver × List UInt32) := do
  let k ← step kstrtol s.1 e
  some (k, awaited s.1 k s.2 e)

/-- The transport accepts every request, no close is interrupted, and no file is closed before the
reply to its request has arrived. -/
def Orderly (k : Driver) : Event → Prop
  | .openVar _ _ _ _ _ _ send => send = 0
  | .release f send =>
    send = 0 ∧ ∀ file, k.files f = some file → file.privateData ∉ k.link.pendingList
  | .releaseWoken _ intr => intr = false
  | .llCount _ _ send => send = 0
  | .llQuery _ send => send = 0
  | _ => True

instance (k : Driver) : (e : Event) → Decidable (Orderly k e)
  | .openVar _ _ _ _ _ _ send => inferInstanceAs (Decidable (send = 0))
  | .release f send =>
    inferInstanceAs (Decidable (send = 0 ∧ ∀ file ∈ k.files f, file.privateData ∉ k.link.pendingList))
  | .releaseWoken _ intr => inferInstanceAs (Decidable (intr = false))
  | .llCount _ _ send => inferInstanceAs (Decidable (send = 0))
  | .llQuery _ send => inferInstanceAs (Decidable (send = 0))
  | .openLl .. => .isTrue trivial
  | .reply _ => .isTrue trivial
  | .read .. => .isTrue trivial
  | .write .. => .isTrue trivial
  | .llCounted .. => .isTrue trivial
  | .llNamed .. => .isTrue trivial

variable {kstrtol : List UInt8 → Int32 × Int32} {k₀ k k' : Driver} {f : FileId} {file : File}

/-! ### What a call sends -/

/-- The call sends nothing, or one request. -/
def Sends (k k' : Driver) : Prop :=
  Unsent k.link k'.link ∨ ∃ t x m, Requested t x m k.link k'.link

section Calls

variable {info : VarAccessInfo}

lemma accessVar_sends_or (kstrtol : List UInt8 → Int32 × Int32) (file : File) (info : VarAccessInfo)
    (hc : k.link.chnl = true) : Sends k (k.accessVar kstrtol file info 0).2 ∧
      ((k.accessVar kstrtol file info 0).1 ≠ 0 →
        Unsent k.link (k.accessVar kstrtol file info 0).2.link) := by
  rcases accessVar_cases kstrtol info 0 file hc with ⟨h0, hret⟩ | ⟨hne, e⟩
  · have hprep : k.link.prepare kstrtol info.index info.type file.privateData =
        (0, (k.link.prepare kstrtol info.index info.type file.privateData).2) := Prod.ext h0 rfl
    exact ⟨.inr ⟨_, _, _, (accessVar_sends info hc hprep).2⟩, fun hne => absurd hret hne⟩
  · rw [e]
    exact ⟨.inl ⟨rfl, rfl, rfl, rfl⟩, fun _ => ⟨rfl, rfl, rfl, rfl⟩⟩

lemma Sends.of_unsent (h : Sends k k') (hu : Unsent k₀.link k.link) : Sends k₀ k' := by
  rcases h with h | ⟨t, x, m, hreq⟩
  · exact .inl (hu.trans' h)
  · exact .inr ⟨t, x, m, hreq.of_unsent hu⟩

lemma unsent_openedForWriting (f : FileId) (file : File) (k : Driver) :
    Unsent k.link (k.openedForWriting f file).link := by
  unfold Driver.openedForWriting
  split <;> exact ⟨rfl, rfl, rfl, rfl⟩

theorem openVar_sends {fModeRead fModeWrite nonblock mem : Bool} (hc : k.link.chnl = true)
    (hs : k.debugfsOpenVar kstrtol f info fModeRead fModeWrite nonblock mem 0 = some k') :
    Sends k k' := by
  unfold Driver.debugfsOpenVar at hs
  obtain ⟨⟨t, l⟩, ha, hs⟩ := Option.bind_eq_some_iff.1 hs
  have hal := Link.allocTrans_spec ha
  dsimp only at hs
  generalize (⟨.var info, fModeRead, fModeWrite, nonblock, 0, t, .ready⟩ : File) = file at hs
  split at hs
  · generalize hk : Driver.modifyTrans file (fun x => { x with rnw := true, wq := true })
      (Driver.setFile f (some file) { k with link := l }) = k₁ at hs
    have hc₁ : k₁.link.chnl = true := hk ▸ hal.chnl.trans hc
    have hu₁ : Unsent k.link k₁.link :=
      hk ▸ ⟨hal.pendingList, hal.drawn, hal.number, hal.wire⟩
    obtain ⟨hsend, hnot⟩ := accessVar_sends_or kstrtol file info hc₁
    split at hs
    · obtain rfl := Option.some.inj hs
      exact hsend.of_unsent hu₁
    · rename_i hne
      obtain rfl := Option.some.inj hs
      exact .inl ((hu₁.trans' (hnot hne)).trans' (unsent_openedForWriting f file _))
  · obtain rfl := Option.some.inj hs
    have hu : Unsent k.link ({ k with link := l }.setFile f (some file)).link :=
      ⟨hal.pendingList, hal.drawn, hal.number, hal.wire⟩
    exact .inl (hu.trans' (unsent_openedForWriting f file _))

lemma getNVars_wire {mem : Bool} {ret : Int32} {l l' : Link} (hc : l.chnl = true)
    (hs : l.getNVars mem 0 = some (ret, l')) : l'.wire = l.wire ++ [l.countReq] := by
  rw [Link.getNVars_eq hc, Option.map_eq_some_iff] at hs
  obtain ⟨⟨t, l₁⟩, ha, hl⟩ := hs
  have hal := Link.allocTrans_spec ha
  dsimp only at hl
  rw [Link.rpmsgSend_eq, if_pos rfl, hal.wire] at hl
  exact (congrArg (fun r => r.2.wire) hl).symm

lemma getNVars_sends {mem : Bool} {ret : Int32} {l l' : Link} (hc : l.chnl = true)
    (hs : l.getNVars mem 0 = some (ret, l')) : ∃ t x m, Requested t x m l l' := by
  obtain ⟨-, t, -, -, hp, -, -, -, -, hd, hn, ht, -⟩ := Link.getNVars_spec hc hs
  exact ⟨t, { Transaction.zero with wq := true }, l.countReq, hp, hd, hn, ht, getNVars_wire hc hs, rfl⟩

theorem openLlCount_sends {mem : Bool} (hc : k.link.chnl = true)
    (hs : k.debugfsOpenLlCount f file mem 0 = some k') :
    ∃ t x m, Requested t x m k.link k'.link := by
  unfold Driver.debugfsOpenLlCount at hs
  obtain ⟨⟨ret, l⟩, hn, hs⟩ := Option.bind_eq_some_iff.1 hs
  have hret : ret = 0 := (Link.getNVars_spec hc hn).1
  dsimp only at hs
  rw [if_neg (not_not.2 hret)] at hs
  obtain rfl := Option.some.inj hs
  exact getNVars_sends hc hn

theorem openLlQuery_sends {i n : ℕ} (hc : k.link.chnl = true)
    (hs : k.debugfsOpenLlQuery kstrtol f file i n 0 = some k') : Sends k k' := by
  rcases debugfsOpenLlQuery_cases hc hs with ⟨-, rfl⟩ | ⟨-, k₁, hl, -, rfl⟩
  · exact .inl ⟨rfl, rfl, rfl, rfl⟩
  · have hu₁ := unsent_of_eq hl
    have hc₁ : (k₁.modifyTrans file forName).link.chnl = true := (congrArg Link.chnl hl).trans hc
    apply Sends.of_unsent (accessVar_sends_or kstrtol file ⟨Int32.ofNat i, .name⟩ hc₁).1
    exact ⟨hu₁.pendingList, hu₁.drawn, hu₁.number, hu₁.wire⟩

/-- **One step of an orderly run** sends at most one request, if it is not a reply. -/
theorem step_sends {e : Event} (h : Sane k) (ho : Orderly k e) (hs : step kstrtol k e = some k')
    (he : ∀ data, e ≠ .reply data) : Sends k k' := by
  replace hs := leads_of_step hs
  cases hs with
  | openVar hf hs =>
    obtain rfl := ho
    exact openVar_sends h.chnl hs
  | openLl hf hs => exact .inl (openLl_hands hf hs).2.2
  | @reply data hs => exact absurd rfl (he data)
  | read file hf hready hread hs => exact .inl (readVar_hands hf hs).2
  | write file hf hready hwrite hs =>
    subst hs
    exact .inl (writeVar_link _ _ _ hf).1
  | release file hf hready hs =>
    obtain ⟨rfl, -⟩ := ho
    rcases releaseVar_sends h hs with ⟨-, hu, -⟩ | ⟨-, -, i, m, -, -, hreq, -⟩
    · exact .inl hu
    · exact .inr ⟨_, _, m, hreq⟩
  | releaseWoken file hf hclosing hs => exact .inl (releaseVarWoken_hands hf hs).1
  | llCount file hf hload hs =>
    obtain rfl := ho
    exact .inr (openLlCount_sends h.chnl hs)
  | llCounted file hf hcount hs => exact .inl (openLlCounted_hands hf hs).2
  | llQuery file i n hf hquery hs =>
    obtain rfl := ho
    exact openLlQuery_sends h.chnl hs
  | llNamed file i n hf hname hs => exact .inl (openLlNamed_hands hf hs).2

end Calls

/-! ### Every run -/

/-- The awaited replies are those to the pending requests. -/
def Awaits (s : Driver × List UInt32) : Prop :=
  s.2.Perm (s.1.link.pendingList.map fun t => UInt32.ofNat (s.1.link.number t))

variable {out : List UInt32} {e : Event}

lemma awaited_of_ne (he : ∀ data, e ≠ .reply data) : awaited k k' out e =
    out ++ (k'.link.wire.drop k.link.wire.length).map CfgMsg.seq := by
  cases e with
  | reply data => exact absurd rfl (he data)
  | _ => rfl

lemma awaits_call (h : Sane k') (ha : Awaits (k, out)) (he : ∀ data, e ≠ .reply data)
    (hs : Sends k k') : Awaits (k', awaited k k' out e) := by
  rw [awaited_of_ne he]
  unfold Awaits at ha ⊢
  dsimp only at ha ⊢
  rcases hs with hu | ⟨t, x, m, hreq⟩
  · rw [hu.wire, List.drop_length, hu.pendingList, hu.number, List.map_nil, List.append_nil]
    exact ha
  · have ht : t ∉ k.link.pendingList := by
      have hn := h.sound.pending_nodup
      rw [show (pool k').pending = k'.link.pendingList from rfl, hreq.pendingList] at hn
      exact (List.nodup_cons.1 hn).1
    have hold : ∀ u ∈ k.link.pendingList,
        UInt32.ofNat (k'.link.number u) = UInt32.ofNat (k.link.number u) := by
      intro u hu
      have hne : u ≠ t := by
        rintro rfl
        exact ht hu
      rw [hreq.number, Function.update_of_ne hne]
    rw [hreq.wire, List.drop_left, List.map_singleton, hreq.seq, hreq.pendingList, List.map_cons,
      List.map_congr_left hold, hreq.number, Function.update_self]
    exact (List.perm_append_singleton _ _).trans (ha.cons _)

lemma awaits_reply (h : Sane k) (ha : Awaits (k, out)) (data : List UInt8) :
    Awaits ({ k with link := k.link.rpmsgCb data },
      awaited k { k with link := k.link.rpmsgCb data } out (.reply data)) := by
  unfold Awaits at ha ⊢
  dsimp only [awaited] at ha ⊢
  rcases k.link.rpmsgCb_cases data with ⟨response, hr, t, ht, hseq, e⟩ | ⟨hnone, e⟩
  · rw [hr, e]
    dsimp only
    have hnum : response.seq = UInt32.ofNat (k.link.number t) := by
      rw [← hseq, h.numbered.seq t ht]
    rw [hnum]
    have hperm := (ha.trans ((List.perm_cons_erase ht).map _)).erase (UInt32.ofNat (k.link.number t))
    rw [List.map_cons, List.erase_cons_head] at hperm
    exact hperm
  · rw [e]
    cases hr : CfgMsg.received data with
    | none => exact ha
    | some response =>
      dsimp only
      rw [List.erase_of_not_mem]
      · exact ha
      · intro hm
        obtain ⟨t, ht, hseq⟩ := List.mem_map.1 (ha.subset hm)
        exact hnone response hr t ht ((h.numbered.seq t ht).trans hseq)

lemma careful_of_orderly (h : Inv True k) (ho : Orderly k e) : Careful kstrtol k e ∧ Sent e := by
  cases e with
  | openVar => exact ⟨trivial, ho⟩
  | release f send =>
    refine ⟨fun file hf _ => ⟨ho.2 file hf, fun _ => ho.1⟩, ho.1⟩
  | llCount => exact ⟨trivial, ho⟩
  | llQuery f send =>
    refine ⟨fun file i n hf hphase _ => ?_, ho⟩
    have hp := h.phases f file hf
    simp only [PhaseOk, hphase] at hp
    exact hp trivial
  | _ => exact ⟨trivial, trivial⟩

/-- The invariant of an orderly run. -/
def Balanced (s : Driver × List UInt32) : Prop := Inv True s.1 ∧ Awaits s

lemma balanced_step {s s' : Driver × List UInt32} (h : Balanced s) (ho : Orderly s.1 e)
    (hs : watch kstrtol s e = some s') : Balanced s' := by
  obtain ⟨k, out⟩ := s
  obtain ⟨hinv, ha⟩ := h
  obtain ⟨k', hk, hs⟩ := Option.bind_eq_some_iff.1 hs
  obtain rfl := Option.some.inj hs
  obtain ⟨hcareful, hsent⟩ := careful_of_orderly hinv ho
  have hinv' : Inv True k' := inv_step hinv hcareful (fun _ => hsent) hk
  refine ⟨hinv', ?_⟩
  by_cases he : ∃ data, e = .reply data
  · obtain ⟨data, rfl⟩ := he
    obtain rfl := Option.some.inj hk
    exact awaits_reply hinv.sane ha data
  · rw [not_exists] at he
    exact awaits_call hinv'.sane ha he (step_sends hinv.sane ho hk he)

lemma none_lost_probed (x : ℕ) : ¬ Pool.Lost x (pool .probed) := by
  rintro ⟨⟨hlt, hn⟩, -⟩
  exact hn (List.mem_reverse.2 (List.mem_range.2 hlt))

section

variable {s s' : Driver × List UInt32}

lemma lost_of_kept (h : Balanced s) (hn : ¬ Loses s.1 e) (hs : watch kstrtol s e = some s') :
    (∀ x, ¬ Pool.Lost x (pool s'.1)) ↔ ∀ x, ¬ Pool.Lost x (pool s.1) := by
  obtain ⟨k', hk, hs⟩ := Option.bind_eq_some_iff.1 hs
  obtain rfl := Option.some.inj hs
  have hm := (step_hands h.1.sane.chnl hk).1
  rw [if_neg hn] at hm
  exact forall_congr' fun x => not_congr (h.1.sane.sound.lost_iff hm)

lemma lost_of_lost (h : Balanced s) (hl : Loses s.1 e) (hs : watch kstrtol s e = some s') :
    ¬ ∀ x, ¬ Pool.Lost x (pool s'.1) := by
  obtain ⟨k', hk, hs⟩ := Option.bind_eq_some_iff.1 hs
  obtain rfl := Option.some.inj hs
  have hm := (step_hands h.1.sane.chnl hk).1
  rw [if_pos hl] at hm
  obtain ⟨x, hx⟩ := (h.1.sane.sound.lost_of_drops hm).1
  exact fun hp => hp x hx

end

/-- **No struct is lost if and only if no step loses one**, for every orderly run after which no file is
open and no reply is awaited: then every struct is on `unused_list` exactly once. -/
theorem no_leak_iff {es : List Event}
    (ho : Steps (watch kstrtol) (fun s e => Orderly s.1 e) (.probed, []) es)
    (hr : run (watch kstrtol) (.probed, []) es = some (k, []))
    (hfiles : ∀ f, k.files f = none) :
    (k.link.pendingList = [] ∧ ∀ t < k.link.allocated, k.link.unusedList.count t = 1) ↔
      Steps (watch kstrtol) (fun s e => ¬ Loses s.1 e) (.probed, []) es := by
  have h₀ : Balanced (.probed, []) := ⟨inv_probed, List.Perm.refl _⟩
  obtain ⟨hinv, ha⟩ := run_invariant_of_steps (fun _ _ _ => balanced_step) h₀ ho hr
  have hpend : k.link.pendingList = [] := List.map_eq_nil_iff.1 (List.nil_perm.1 ha)
  have hiff : (∀ x, ¬ Pool.Lost x (pool k)) ↔ (∀ x, ¬ Pool.Lost x (pool .probed)) ∧
      Steps (watch kstrtol) (fun s e => ¬ Loses s.1 e) (.probed, []) es := by
    apply iff_no_bad_step (P := fun s : Driver × List UInt32 => ∀ x, ¬ Pool.Lost x (pool s.1))
      (fun _ _ _ => balanced_step) ?_ ?_ h₀ ho hr
    · exact fun s e s' h _ => lost_of_kept h
    · exact fun s e s' h _ => lost_of_lost h
  rw [and_iff_right none_lost_probed] at hiff
  rw [and_iff_right hpend, ← hiff]
  exact hinv.sane.sound.count_unused_iff fun f => by simp [pool, hfiles]

/-! ### Two runs -/

/-- `kstrtol` for runs that write nothing. -/
def noStrtol (_ : List UInt8) : Int32 × Int32 := (0, 0)

/-- A client opens the value of the variable 0, waits for the reply, reads and closes the file. -/
def readsValue : List Event :=
  [.openVar 0 ⟨0, .val⟩ true false false true 0,
    .reply { CfgMsg.zero with type := resRdVal, val := 5 }.encode, .read 0 400 none false 0, .release 0 0]

/-- The reply to the request 0: there is one variable. -/
def oneVar : CfgMsg := { CfgMsg.zero with type := resNVars, val := 1 }

lemma name_fits : 0 + [(65 : UInt8)].length ≤ msgDataSize := by decide

/-- The reply to the request 1: the variable has the name `A`. -/
def nameA : CfgMsg :=
  { CfgMsg.zero with seq := 1, type := resName, len := 1, data := CfgMsg.zero.data.write 0 [65] name_fits }

/-- A client opens `load_list`, the firmware answers both requests, and the client closes the file. -/
def loadsList : List Event :=
  [.openLl 0 true false false true, .llCount 0 true 0, .reply oneVar.encode,
    .llCounted 0 false (fun _ => true) (fun _ => true), .llQuery 0 0, .reply nameA.encode,
    .llNamed 0 false (fun _ => true), .llQuery 0 0, .release 0 0]

set_option maxRecDepth 20000 in
lemma readsValue_closes (f : FileId) : ((run (watch noStrtol) (.probed, []) readsValue).any fun s =>
    (s.1.files f).isNone) = true := by
  cases f with
  | zero => decide +kernel
  | succ f => exact rfl

set_option maxRecDepth 20000 in
lemma loadsList_closes (f : FileId) : ((run (watch noStrtol) (.probed, []) loadsList).any fun s =>
    (s.1.files f).isNone) = true := by
  cases f with
  | zero => decide +kernel
  | succ f => exact rfl

lemma files_none {es : List Event} {s : Driver × List UInt32}
    (hr : run (watch noStrtol) (.probed, []) es = some s)
    (h : ∀ f, ((run (watch noStrtol) (.probed, []) es).any fun s => (s.1.files f).isNone) = true)
    (f : FileId) : s.1.files f = none := by
  have hf := h f
  rw [hr, Option.any_some] at hf
  exact Option.isNone_iff_eq_none.1 hf

/-- Reading a value loses no struct. -/
theorem readsValue_keeps : ∃ k, run (watch noStrtol) (.probed, []) readsValue = some (k, []) ∧
    ∀ t < k.link.allocated, k.link.unusedList.count t = 1 := by
  have h : ((run (watch noStrtol) (.probed, []) readsValue).any
      fun s : Driver × List UInt32 => decide (s.2 = [])) = true := by decide +kernel
  obtain ⟨⟨k, out⟩, hr, hout⟩ := (Option.any_eq_true ..).1 h
  obtain rfl : out = [] := of_decide_eq_true hout
  have ho : Steps (watch noStrtol) (fun s e => Orderly s.1 e) (.probed, []) readsValue := by
    decide +kernel
  have hl : Steps (watch noStrtol) (fun s e => ¬ Loses s.1 e) (.probed, []) readsValue := by
    decide +kernel
  exact ⟨k, hr, ((no_leak_iff ho hr (files_none hr readsValue_closes)).2 hl).2⟩

/-- **Loading the list loses the struct 14**, although every request is answered and the file is
closed. -/
theorem loadsList_leaks : ∃ k,
    Steps (watch noStrtol) (fun s e => Orderly s.1 e) (.probed, []) loadsList ∧
    run (watch noStrtol) (.probed, []) loadsList = some (k, []) ∧ (∀ f, k.files f = none) ∧
    ¬ ∀ t < k.link.allocated, k.link.unusedList.count t = 1 := by
  have h : ((run (watch noStrtol) (.probed, []) loadsList).any fun s : Driver × List UInt32 =>
      decide (s.2 = [] ∧ 14 < s.1.link.allocated ∧ s.1.link.unusedList.count 14 = 0)) = true := by
    decide +kernel
  obtain ⟨⟨k, out⟩, hr, hk⟩ := (Option.any_eq_true ..).1 h
  obtain ⟨rfl, hlt, hc⟩ : out = [] ∧ 14 < k.link.allocated ∧ k.link.unusedList.count 14 = 0 :=
    of_decide_eq_true hk
  refine ⟨k, by decide +kernel, hr, files_none hr loadsList_closes, fun hall => ?_⟩
  exact absurd ((hall 14 hlt).symm.trans hc) (by decide)

end CfgMgmt.Kernel.Leaks
