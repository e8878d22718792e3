import CfgMgmt.Kernel.Hands

/-!
# The struct of `get_n_vars`

`get_n_vars` waits with a struct that no file has.  Until the reply comes nobody else touches it,
whatever the clients do, and no newer request has an error under its number.  So the reply, which leaves
the error of its struct as it is, finds none (`Waits.err`).
-/

namespace CfgMgmt.Kernel.Unshared

open CfgMgmt.Lib CfgMgmt.Msg CfgMgmt.Kernel.Linux CfgMgmt.Kernel.RpmsgLink
open CfgMgmt.Kernel.Files CfgMgmt.Kernel.Structs CfgMgmt.Kernel.Calls CfgMgmt.Kernel.Hands

variable {kstrtol : List UInt8 → Int32 × Int32} {k₀ k k' : Driver} {f : FileId} {file : File}
  {t : Ptr} {seq : UInt32}

/-! ### What a call leaves alone -/

/-- The struct has the number, and an error. -/
def Faulty (seq : UInt32) (x : Transaction) : Prop := x.msgSeqNr = seq ∧ x.err ≠ 0

/-- From `k₀` to `k` the structs that nobody has are left alone, a struct gets an error only under a new
number, and at most one struct gets pending, with a new number or without an error. -/
structure Spares (k₀ k : Driver) : Prop where
  lost : ∀ t, Pool.Lost t (pool k₀) → k.link.trans t = k₀.link.trans t
  faulty : ∀ t, ∀ seq ≠ UInt32.ofNat k₀.link.drawn,
    Faulty seq (k.link.trans t) → Faulty seq (k₀.link.trans t)
  pending : k.link.pendingList = k₀.link.pendingList ∨
    ∃ t, k.link.pendingList = t :: k₀.link.pendingList ∧
      ∀ seq ≠ UInt32.ofNat k₀.link.drawn, ¬ Faulty seq (k.link.trans t)
  drawn : k₀.link.drawn ≤ k.link.drawn

lemma Spares.refl (k : Driver) : Spares k k := ⟨fun _ _ => rfl, fun _ _ _ => id, .inl rfl, le_rfl⟩

lemma Spares.congr (h : Spares k₀ k) (hl : k'.link = k.link) : Spares k₀ k' := by
  obtain ⟨hlost, hfaulty, hpending, hdrawn⟩ := h
  rw [← hl] at hlost hfaulty hpending hdrawn
  exact ⟨hlost, hfaulty, hpending, hdrawn⟩

lemma not_lost_of_file (hf : k.files f = some file) : ¬ Pool.Lost file.privateData (pool k) :=
  fun h => h.unowned f (owner_pool hf)

lemma not_lost_of_taken {mem : Bool} {l : Link} (ha : k.link.allocTrans mem = some (t, l)) :
    ¬ Pool.Lost t (pool k) := by
  obtain ⟨q, hq, -⟩ := take_pool (Link.allocTrans_spec ha)
  exact fun h => Pool.not_inUse_of_take hq h.inUse

lemma Spares.update (h : Spares k₀ k) (hn : ¬ Pool.Lost t (pool k₀)) {x : Transaction}
    (hx : ∀ seq ≠ UInt32.ofNat k₀.link.drawn, Faulty seq x → Faulty seq (k.link.trans t))
    (ht : k'.link.trans = Function.update k.link.trans t x)
    (hp : k'.link.pendingList = k.link.pendingList) (hd : k'.link.drawn = k.link.drawn) :
    Spares k₀ k' := by
  have hfaulty : ∀ u, ∀ seq ≠ UInt32.ofNat k₀.link.drawn,
      Faulty seq (k'.link.trans u) → Faulty seq (k.link.trans u) := by
    intro u seq hseq hu
    by_cases hut : u = t
    · subst hut
      rw [ht, Function.update_self] at hu
      exact hx seq hseq hu
    · rwa [ht, Function.update_of_ne hut] at hu
  refine ⟨fun u hu => ?_, fun u seq hseq hu => h.faulty u seq hseq (hfaulty u seq hseq hu), ?_, ?_⟩
  · have hut : u ≠ t := by
      rintro rfl
      exact hn hu
    rw [ht, Function.update_of_ne hut, h.lost u hu]
  · rw [hp]
    refine h.pending.imp_right ?_
    rintro ⟨u, hu, hclean⟩
    exact ⟨u, hu, fun seq hseq hf => hclean seq hseq (hfaulty u seq hseq hf)⟩
  · rw [hd]
    exact h.drawn

lemma Spares.modifyTrans (h : Spares k₀ k) (hn : ¬ Pool.Lost file.privateData (pool k₀))
    {m : Transaction → Transaction}
    (hm : ∀ seq, Faulty seq (m (k.transOf file)) → Faulty seq (k.transOf file)) :
    Spares k₀ (k.modifyTrans file m) :=
  h.update hn (fun seq _ => hm seq) rfl rfl rfl

lemma not_faulty_zero : ¬ Faulty seq .zero := fun h => h.2 rfl

lemma Spares.returnTrans (h : Spares k₀ k) (hn : ¬ Pool.Lost file.privateData (pool k₀)) :
    Spares k₀ (k.returnTrans file) :=
  h.update hn (fun _ _ hf => absurd hf not_faulty_zero) rfl rfl rfl

lemma Spares.openedWith (h : Spares k₀ k) (hn : ¬ Pool.Lost file.privateData (pool k₀)) (f : FileId)
    (s : List UInt8) : Spares k₀ (k.openedWith f file s) := by
  refine h.update hn ?_ rfl rfl rfl
  exact fun _ _ => id

lemma Spares.openedForWriting (h : Spares k₀ k) (hn : ¬ Pool.Lost file.privateData (pool k₀))
    (f : FileId) : Spares k₀ (k.openedForWriting f file) := by
  unfold Driver.openedForWriting
  split
  · refine h.update hn ?_ rfl rfl rfl
    exact fun _ _ => id
  · exact h.congr rfl

lemma spares_alloc {mem : Bool} {l : Link} (ha : k.link.allocTrans mem = some (t, l)) :
    Spares k { k with link := l } := by
  have hal := Link.allocTrans_spec ha
  refine (Spares.refl k).update (not_lost_of_taken ha) (fun _ _ hf => absurd hf not_faulty_zero) ?_
    hal.pendingList hal.drawn
  funext u
  by_cases hu : u = t
  · subst hu
    rw [Function.update_self]
    exact hal.trans_self
  · rw [Function.update_of_ne hu]
    exact hal.trans_of_ne u hu

lemma Spares.accessVar (h : Spares k₀ k) (hn : ¬ Pool.Lost file.privateData (pool k₀))
    (hp : k.link.pendingList = k₀.link.pendingList) (hd : k.link.drawn = k₀.link.drawn)
    (kstrtol : List UInt8 → Int32 × Int32) (info : VarAccessInfo) (send : Int32) :
    Spares k₀ (k.accessVar kstrtol file info send).2 := by
  cases hc : k.link.chnl with
  | false =>
    rw [accessVar_gone kstrtol file info send hc]
    exact h
  | true =>
    unfold Driver.accessVar
    by_cases hr : (k.link.prepare kstrtol info.index info.type file.privateData).1 = 0
    · rw [Link.accessVar_of_eq hc hr, Link.rpmsgSend_eq]
      have hnew : ∀ seq ≠ UInt32.ofNat k₀.link.drawn,
          ¬ Faulty seq { k.transOf file with msgSeqNr := UInt32.ofNat k.link.drawn } := by
        rintro seq hseq ⟨hs, -⟩
        exact hseq (hd ▸ hs.symm)
      have hfill : Spares k₀
          (k.modifyTrans file fun x => { x with msgSeqNr := UInt32.ofNat k.link.drawn }) :=
        h.update hn (fun seq hseq hf => absurd hf (hnew seq hseq)) rfl rfl rfl
      refine ⟨hfill.lost, hfill.faulty, .inr ⟨file.privateData, congrArg _ hp, fun seq hseq hf => ?_⟩,
        h.drawn.trans (Nat.le_succ _)⟩
      have hself := Link.modify_trans_self (s := k.link) (t := file.privateData)
        fun x => { x with msgSeqNr := UInt32.ofNat k.link.drawn }
      exact hnew seq hseq (hself ▸ hf)
    · rw [Link.accessVar_of_ne hc hr]
      exact ⟨h.lost, h.faulty, h.pending, h.drawn⟩

/-! ### Every call -/

section Calls

variable {send : Int32}

theorem openVar_spares {info : VarAccessInfo} {fModeRead fModeWrite nonblock mem : Bool}
    (hs : k.debugfsOpenVar kstrtol f info fModeRead fModeWrite nonblock mem send = some k') :
    Spares k k' := by
  unfold Driver.debugfsOpenVar at hs
  obtain ⟨⟨t, l⟩, ha, hs⟩ := Option.bind_eq_some_iff.1 hs
  have hal := Link.allocTrans_spec ha
  dsimp only at hs
  generalize hfile : (⟨.var info, fModeRead, fModeWrite, nonblock, 0, t, .ready⟩ : File) = file at hs
  have hn : ¬ Pool.Lost file.privateData (pool k) := hfile ▸ not_lost_of_taken ha
  have hopen : Spares k ({ k with link := l }.setFile f (some file)) := (spares_alloc ha).congr rfl
  split at hs
  · have hreads := hopen.modifyTrans (m := fun x => { x with rnw := true, wq := true }) hn fun _ => id
    have hacc := hreads.accessVar hn hal.pendingList hal.drawn kstrtol info send
    split at hs
    · obtain rfl := Option.some.inj hs
      exact hacc.congr rfl
    · obtain rfl := Option.some.inj hs
      exact hacc.openedForWriting hn f
  · obtain rfl := Option.some.inj hs
    exact hopen.openedForWriting hn f

theorem readVar_spares {len uncopied : ℕ} {own : Option ℤ} {intr : Bool} (hf : k.files f = some file)
    (hs : k.debugfsReadVar f file len own intr uncopied = some k') : Spares k k' := by
  unfold Driver.debugfsReadVar at hs
  dsimp only at hs
  split at hs
  · split at hs
    · obtain rfl := Option.some.inj hs
      exact (Spares.refl k).congr rfl
    · obtain ⟨-, hs⟩ := Option.ite_none_right_eq_some.1 hs
      obtain rfl := Option.some.inj hs
      exact (Spares.refl k).congr rfl
  · split at hs
    · rename_i herr
      obtain rfl := Option.some.inj hs
      -- the error of the struct changes its sign
      refine (Spares.refl k).update (not_lost_of_file hf) ?_ rfl rfl rfl
      exact fun seq _ hx => ⟨hx.1, herr⟩
    · obtain rfl := Option.some.inj hs
      refine (Spares.refl k).congr ?_
      cases own <;> rfl

theorem writeVar_spares (data : List UInt8) (own : Option ℤ) (uncopied : ℕ)
    (hf : k.files f = some file) : Spares k (k.debugfsWriteVar f file data own uncopied) := by
  have hn := not_lost_of_file hf
  have hdirty := (Spares.refl k).modifyTrans (m := fun x => { x with dirty := true }) hn fun _ => id
  have hwritten := hdirty.modifyTrans (m := fun x => { x with
    buf := (simpleWriteToBuffer (k.transOf file).buf (own.getD file.pos) data uncopied).2.2 }) hn
    fun _ => id
  refine hwritten.congr ?_
  unfold Driver.debugfsWriteVar
  cases own <;> simp [Driver.seek, Driver.returns, Driver.setFile, Driver.transOf, Driver.modifyTrans]

theorem releaseVar_spares (hc : k.link.chnl = true) (hf : k.files f = some file)
    (hs : k.debugfsReleaseVar kstrtol f file send = some k') : Spares k k' := by
  have hn := not_lost_of_file hf
  rcases debugfsReleaseVar_cases hc hs with ⟨-, req, ret, -, rfl⟩ | ⟨-, i, -, rfl⟩
  · have h : Spares k { k with link := { k.link with accessReq := req } } :=
      ⟨fun _ _ => rfl, fun _ _ _ => id, .inl rfl, le_rfl⟩
    exact (h.returnTrans hn).congr rfl
  · have hwq := (Spares.refl k).modifyTrans (m := fun x => { x with wq := true, valid := false }) hn
      fun _ => id
    have h : Spares k (writeBack kstrtol ⟨i, .val⟩ send file k) :=
      hwq.accessVar hn rfl rfl kstrtol ⟨i, .val⟩ send
    split
    · exact h.congr rfl
    · exact (h.returnTrans hn).congr rfl

theorem releaseVarWoken_spares {intr : Bool} (hf : k.files f = some file)
    (hs : k.debugfsReleaseVarWoken f file intr = some k') : Spares k k' := by
  unfold Driver.debugfsReleaseVarWoken at hs
  split at hs
  · obtain ⟨-, hs⟩ := Option.ite_none_right_eq_some.1 hs
    obtain rfl := Option.some.inj hs
    exact (Spares.refl k).congr rfl
  · split at hs
    · obtain rfl := Option.some.inj hs
      exact (Spares.refl k).congr rfl
    · obtain rfl := Option.some.inj hs
      exact ((Spares.refl k).returnTrans (not_lost_of_file hf)).congr rfl

theorem openLl_spares {fModeRead fModeWrite nonblock mem : Bool}
    (hs : k.debugfsOpenLl f fModeRead fModeWrite nonblock mem = some k') : Spares k k' := by
  unfold Driver.debugfsOpenLl at hs
  obtain ⟨⟨t, l⟩, ha, hs⟩ := Option.bind_eq_some_iff.1 hs
  dsimp only at hs
  generalize hfile : (⟨.loadList, fModeRead, fModeWrite, nonblock, 0, t, .load⟩ : File) = file at hs
  have hn : ¬ Pool.Lost file.privateData (pool k) := hfile ▸ not_lost_of_taken ha
  have hopen : Spares k ({ k with link := l }.setFile f (some file)) := (spares_alloc ha).congr rfl
  split at hs
  · obtain rfl := Option.some.inj hs
    exact hopen.openedWith hn f _
  · obtain rfl := Option.some.inj hs
    exact hopen

theorem openLlCount_spares {mem : Bool} (hc : k.link.chnl = true) (hf : k.files f = some file)
    (hs : k.debugfsOpenLlCount f file mem send = some k') : Spares k k' := by
  unfold Driver.debugfsOpenLlCount at hs
  obtain ⟨⟨ret, l⟩, hg, hs⟩ := Option.bind_eq_some_iff.1 hs
  obtain ⟨-, t, l₁, ha, hp, -, -, -, -, hd, -, hself, hne⟩ := Link.getNVars_spec hc hg
  have hclean : ∀ seq, ¬ Faulty seq (l.trans t) := by
    intro seq hx
    rw [hself] at hx
    exact hx.2 rfl
  have hcounts : Spares k { k with link := l } := by
    have hnew := not_lost_of_taken ha
    refine ⟨fun u hu => hne u ?_, fun u seq _ hx => ?_, .inr ⟨t, hp, fun seq _ => hclean seq⟩, ?_⟩
    · rintro rfl
      exact hnew hu
    · by_cases hut : u = t
      · exact absurd (hut ▸ hx) (hclean seq)
      · exact hne u hut ▸ hx
    · exact (Nat.le_succ _).trans hd.ge
  dsimp only at hs
  split at hs
  · obtain rfl := Option.some.inj hs
    exact hcounts.openedWith (not_lost_of_file hf) f _
  · obtain rfl := Option.some.inj hs
    exact hcounts.congr rfl

theorem openLlCounted_spares {intr : Bool} {mem dirMem : Kind → Bool} (hf : k.files f = some file)
    (hs : k.debugfsOpenLlCounted f file intr mem dirMem = some k') : Spares k k' := by
  have hn := not_lost_of_file hf
  have h₁ : Spares k (k.allocMem mem Kind.all).2 :=
    (Spares.refl k).congr (allocMem_keeps mem Kind.all k).1
  have h₂ := h₁.congr (createDirs_keeps dirMem Kind.all (k.allocMem mem Kind.all).2).1
  unfold Driver.debugfsOpenLlCounted at hs
  split at hs
  · obtain ⟨-, hs⟩ := Option.ite_none_right_eq_some.1 hs
    obtain rfl := Option.some.inj hs
    exact (Spares.refl k).openedWith hn f _
  · dsimp only at hs
    split at hs
    · obtain rfl := Option.some.inj hs
      exact (Spares.refl k).openedWith hn f _
    · split at hs
      · obtain rfl := Option.some.inj hs
        exact h₁.openedWith hn f _
      · split at hs
        · obtain rfl := Option.some.inj hs
          exact h₂.openedWith hn f _
        · obtain rfl := Option.some.inj hs
          exact h₂.congr rfl

theorem openLlQuery_spares {i n : ℕ} (hc : k.link.chnl = true) (hf : k.files f = some file)
    (hs : k.debugfsOpenLlQuery kstrtol f file i n send = some k') : Spares k k' := by
  have hn := not_lost_of_file hf
  rcases debugfsOpenLlQuery_cases hc hs with ⟨-, rfl⟩ | ⟨-, k₁, hl, -, rfl⟩
  · exact (Spares.refl k).openedWith hn f _
  · have hname := ((Spares.refl k).congr hl).modifyTrans (m := forName) hn fun _ => id
    have hp : k₁.link.pendingList = k.link.pendingList := congrArg Link.pendingList hl
    have hd : k₁.link.drawn = k.link.drawn := congrArg Link.drawn hl
    have h : Spares k (queryName kstrtol i send file k₁) :=
      hname.accessVar hn hp hd kstrtol ⟨Int32.ofNat i, .name⟩ send
    exact h.congr rfl

theorem openLlNamed_spares {i n : ℕ} {intr : Bool} {mem : Kind → Bool} (hf : k.files f = some file)
    (hs : k.debugfsOpenLlNamed f file i n intr mem = some k') : Spares k k' := by
  unfold Driver.debugfsOpenLlNamed at hs
  split at hs
  · obtain ⟨-, hs⟩ := Option.ite_none_right_eq_some.1 hs
    obtain rfl := Option.some.inj hs
    exact (Spares.refl k).openedWith (not_lost_of_file hf) f _
  · obtain ⟨k₁, hk₁, hs⟩ := Option.bind_eq_some_iff.1 hs
    obtain rfl := Option.some.inj hs
    exact (Spares.refl k).congr (foldlM_keeps (createFile_keeps _ i mem) hk₁).1

/-- **No call** touches a struct that nobody has. -/
theorem call_spares {e : Event} (hc : k.link.chnl = true) (he : ∀ data, e ≠ .reply data)
    (hs : step kstrtol k e = some k') : Spares k k' := by
  replace hs := leads_of_step hs
  cases hs with
  | openVar hf hs => exact openVar_spares hs
  | openLl hf hs => exact openLl_spares hs
  | reply => exact absurd rfl (he _)
  | read file hf hready hread hs => exact readVar_spares hf hs
  | write file hf hready hwrite hs =>
    subst hs
    exact writeVar_spares _ _ _ hf
  | release file hf hready hs => exact releaseVar_spares hc hf hs
  | releaseWoken file hf hclosing hs => exact releaseVarWoken_spares hf hs
  | llCount file hf hload hs => exact openLlCount_spares hc hf hs
  | llCounted file hf hcount hs => exact openLlCounted_spares hf hs
  | llQuery file i n hf hquery hs => exact openLlQuery_spares hc hf hs
  | llNamed file i n hf hname hs => exact openLlNamed_spares hf hs

end Calls

/-! ### Waiting for the reply -/

/-- The struct `t`, which nobody has, waits for the reply with the number `seq`, and no newer request has
an error under this number. -/
structure Waits (seq : UInt32) (t : Ptr) (k : Driver) : Prop where
  lost : Pool.Lost t (pool k)
  number : (k.link.trans t).msgSeqNr = seq
  newer : ∃ pre post, k.link.pendingList = pre ++ t :: post ∧
    ∀ u ∈ t :: pre, ¬ Faulty seq (k.link.trans u)

theorem Waits.err {u : Ptr} (h : Waits seq t k)
    (hf : (k.link.pendingList.find? fun u => (k.link.trans u).msgSeqNr = seq) = some u) :
    (k.link.trans u).err = 0 := by
  obtain ⟨pre, post, hp, hn⟩ := h.newer
  have hseq : (k.link.trans u).msgSeqNr = seq := by simpa using List.find?_some hf
  have hu : u ∈ t :: pre := by
    rw [hp, List.find?_append, List.find?_cons_of_pos (by simpa using h.number)] at hf
    cases hpre : pre.find? fun u => (k.link.trans u).msgSeqNr = seq with
    | none =>
      rw [hpre] at hf
      obtain rfl := Option.some.inj hf
      exact List.mem_cons_self
    | some v =>
      rw [hpre] at hf
      obtain rfl := Option.some.inj hf
      exact List.mem_cons_of_mem _ (List.mem_of_find?_eq_some hpre)
  by_contra he
  exact hn u hu ⟨hseq, he⟩

theorem getNVars_waits {mem : Bool} {send ret : Int32} {l : Link} (hc : k.link.chnl = true)
    (h : (pool k).idle.Sound) (hs : k.link.getNVars mem send = some (ret, l)) :
    ∃ t, Waits (UInt32.ofNat k.link.drawn) t { k with link := l } := by
  obtain ⟨-, t, l₁, ha, hp, hu, hm, -, -, -, -, hself, -⟩ := Link.getNVars_spec hc hs
  obtain ⟨q, hq, e⟩ := take_pool (Link.allocTrans_spec ha)
  obtain ⟨-, huse, hun, -, howner, -⟩ := h.take (Pool.take_idle hq)
  refine ⟨t, ?_, congrArg Transaction.msgSeqNr hself, [], _, hp, ?_⟩
  · have hlost : Pool.Lost t q.idle := ⟨huse, (Pool.Unowned.congr howner).2 hun⟩
    rw [← e] at hlost
    have hunused : (pool { k with link := l }).unused = (pool { k with link := l₁ }).unused := hu
    exact (Pool.Lost.congr hunused hm rfl).2 (Pool.lost_idle.1 hlost)
  · rintro u hmem ⟨-, he⟩
    obtain rfl := List.mem_singleton.1 hmem
    rw [hself] at he
    exact he rfl

theorem Waits.spares (h : Waits seq t k) (hl : Pool.Lost t (pool k')) (hk : Spares k k')
    (hseq : seq ≠ UInt32.ofNat k.link.drawn) : Waits seq t k' := by
  obtain ⟨pre, post, hp, hn⟩ := h.newer
  have hn' : ∀ u ∈ t :: pre, ¬ Faulty seq (k'.link.trans u) := fun u hu hf =>
    hn u hu (hk.faulty u seq hseq hf)
  refine ⟨hl, (congrArg _ (hk.lost t h.lost)).trans h.number, ?_⟩
  rcases hk.pending with e | ⟨v, e, hv⟩
  · exact ⟨pre, post, e.trans hp, hn'⟩
  · refine ⟨v :: pre, post, ?_, fun u hu => ?_⟩
    · rw [e, hp]
      rfl
    · rcases List.mem_cons.1 hu with rfl | hu
      · exact hn' _ List.mem_cons_self
      rcases List.mem_cons.1 hu with rfl | hu
      · exact hv seq hseq
      · exact hn' u (List.mem_cons_of_mem _ hu)

theorem Waits.reply {data : List UInt8} (h : Waits seq t k)
    (hne : ∀ response, CfgMsg.received data = some response → response.seq ≠ seq) :
    Waits seq t { k with link := k.link.rpmsgCb data } := by
  rcases k.link.rpmsgCb_cases data with ⟨response, hr, v, -, hv, e⟩ | ⟨-, e⟩
  · obtain ⟨pre, post, hp, hn⟩ := h.newer
    have hvseq : (k.link.trans v).msgSeqNr ≠ seq := fun h => hne response hr (hv.symm.trans h)
    have hvt : v ≠ t := by
      rintro rfl
      exact hvseq h.number
    have hother : ∀ u ≠ v, (k.link.settle response v).trans u = k.link.trans u := fun u hu =>
      Function.update_of_ne hu ..
    have hn' : ∀ u ∈ t :: pre, ¬ Faulty seq ((k.link.settle response v).trans u) := by
      intro u hu hf
      by_cases huv : u = v
      · subst huv
        have hself : (k.link.settle response u).trans u = Link.complete response (k.link.trans u) :=
          Function.update_self ..
        rw [hself] at hf
        exact hvseq ((Link.complete_msgSeqNr ..).symm.trans hf.1)
      · rw [hother u huv] at hf
        exact hn u hu hf
    have hlost : Pool.Lost t (pool { k with link := k.link.settle response v }) ↔ Pool.Lost t (pool k) :=
      Pool.Lost.congr rfl rfl rfl
    rw [e]
    refine ⟨hlost.2 h.lost, (congrArg _ (hother t hvt.symm)).trans h.number, ?_⟩
    by_cases hmem : v ∈ pre
    · refine ⟨pre.erase v, post, ?_, fun u hu => hn' u ?_⟩
      · show k.link.pendingList.erase v = _
        rw [hp, List.erase_append_left _ hmem]
      · rcases List.mem_cons.1 hu with rfl | hu
        · exact List.mem_cons_self
        · exact List.mem_cons_of_mem _ (List.mem_of_mem_erase hu)
    · refine ⟨pre, post.erase v, ?_, hn'⟩
      show k.link.pendingList.erase v = _
      rw [hp, List.erase_append_right _ hmem, List.erase_cons_tail (by simpa using hvt.symm)]
  · rw [e]
    exact h

end CfgMgmt.Kernel.Unshared
