import Mathlib.Algebra.BigOperators.Group.Finset.Basic
import Mathlib.Algebra.Order.BigOperators.Group.Finset
import CfgMgmt.Kernel.Opening
import CfgMgmt.Lib.Variant
import CfgMgmt.System.RoundTrip

/-!
# The list that Linux loads is the table of the firmware

Clients open `load_list` after the module was probed, and the firmware answers.  However the calls, the
firmware and the two channels take turns, the directories hold one file for every variable of the firmware
when all calls have returned (`mirrors_run`); and they do return, after a number of steps that is bounded
(`loading_ends`).
-/

namespace CfgMgmt.System.Bringup

open CfgMgmt.Lib CfgMgmt.Lib.Bytes CfgMgmt.Lib.Machine CfgMgmt.Msg CfgMgmt.Firmware.Config
open CfgMgmt.Firmware.RegisterMap CfgMgmt.Firmware.ConfigRefinement
open CfgMgmt.Kernel.Linux CfgMgmt.Kernel.RpmsgLink CfgMgmt.Kernel.Files CfgMgmt.Kernel.Calls
open CfgMgmt.Kernel.LoadList CfgMgmt.Kernel.Opening
open CfgMgmt.Kernel.Matching (Young)
open CfgMgmt.System.RoundTrip (Quiet serve_goes deliver_goes deliver_keeps)

/-! ### The names -/

section Names

variable {n : VarCount} {κ δ ε ω : Type}

/-- The name of a variable as it reaches the kernel module: as much of it as fits behind a message. -/
def sentName (v : CfgVar κ δ) : List UInt8 := v.name.bytes.take (cfgBufLen - sizeofCfgMsg)

def sentNames (vars : Table n κ δ) : List (List UInt8) := List.ofFn fun k => sentName (vars k)

lemma fits_sentName (v : CfgVar κ δ) : (sentName v).length < ioBufSize ∧ 0 ∉ sentName v := by
  constructor
  · have hle : (sentName v).length ≤ cfgBufLen - sizeofCfgMsg := List.length_take_le ..
    have hlt : cfgBufLen - sizeofCfgMsg < ioBufSize := by decide
    omega
  · exact fun h => v.name.noNul (List.mem_of_mem_take h)

/-- The names of a table whose variables can be told apart. -/
def namesOf (vars : Table n κ δ) (h : (sentNames vars).Nodup) : Names where
  list := sentNames vars
  distinct := h
  fits name hname := by
    obtain ⟨k, rfl⟩ := (List.mem_ofFn' ..).1 hname
    exact fits_sentName (vars k)
  count_lt := by
    rw [sentNames, List.length_ofFn]
    exact n.2

variable {vars : Table n κ δ} {hd : (sentNames vars).Nodup} {sem : CbSem n κ δ ε ω} {w : World n κ δ ε ω}
  {m rep : CfgMsg}

lemma length_names (vars : Table n κ δ) (hd : (sentNames vars).Nodup) :
    (namesOf vars hd).list.length = n.1 := List.length_ofFn

lemma names_getD (vars : Table n κ δ) (hd : (sentNames vars).Nodup) (k : Fin n.1) :
    (namesOf vars hd).list.getD k [] = sentName (vars k) := by
  have hlt : (k : ℕ) < (sentNames vars).length := by
    rw [sentNames, List.length_ofFn]
    exact k.2
  show (sentNames vars).getD k [] = _
  rw [← List.getElem_eq_getD (h := hlt)]
  exact List.getElem_ofFn _

/-- A query for the number of the variables, or for a name, is answered from the table, which it leaves as
it is. -/
lemma serve_proper (hm : Kernel.LoadList.Proper (namesOf vars hd) m) : query n m = .count ∨
    ∃ k : Fin n.1, m.ind = Int32.ofNat k ∧ query n m = .name k := by
  obtain ht | ⟨ht, i, hi, hind⟩ := hm
  · left
    unfold query
    rw [ht]
    rfl
  · have hlt : i < n.1 := length_names vars hd ▸ hi
    refine .inr ⟨⟨i, hlt⟩, hind, ?_⟩
    unfold query
    rw [ht, hind, entry?_ofNat ⟨i, hlt⟩]
    rfl

lemma answers_of_carries (hw : w.vars = vars) (hseq : rep.seq = m.seq)
    (hc : Carries rep ((regMap sem).serve w (query n m)).2) : Kernel.LoadList.Answers (namesOf vars hd) m rep := by
  refine ⟨hseq, fun ht => ?_, fun ht i hi hind => ?_⟩
  · have hq : query n m = .count := by
      unfold query
      rw [ht]
      rfl
    rw [hq] at hc
    obtain ⟨htype, hval, -⟩ := hc
    refine ⟨htype, Int32.toInt_inj.1 ?_⟩
    rw [toInt_count, length_names]
    exact hval
  · have hlt : i < n.1 := length_names vars hd ▸ hi
    have hq : query n m = .name ⟨i, hlt⟩ := by
      unfold query
      rw [ht, hind, entry?_ofNat ⟨i, hlt⟩]
      rfl
    rw [hq] at hc
    obtain ⟨htype, hlen, hdata⟩ := hc
    have hname : (namesOf vars hd).list.getD i [] = (vars ⟨i, hlt⟩).name.bytes.take rep.len.toNat := by
      have htake : (vars ⟨i, hlt⟩).name.bytes.take rep.len.toNat = sentName (vars ⟨i, hlt⟩) := by
        rw [hlen, ← hw]
        exact List.take_eq_take_iff.2 (by simp [regMap, Nat.min_comm])
      rw [htake]
      exact names_getD vars hd ⟨i, hlt⟩
    have hle : ((namesOf vars hd).list.getD i []).length = rep.len.toNat := by
      have hfits : rep.len.toNat ≤ (vars ⟨i, hlt⟩).name.bytes.length := by
        rw [hlen, ← hw]
        exact Nat.min_le_left ..
      rw [hname, List.length_take_of_le hfits]
    refine ⟨htype, hle.symm, ?_⟩
    rw [hle, hname, hdata, ← hw]
    rfl

end Names

/-! ### The run -/

section Run

variable {n : VarCount} {κ δ ε ω : Type} {kstrtol : List UInt8 → Int32 × Int32} {sem : CbSem n κ δ ε ω}
  {vars : Table n κ δ} {hd : (sentNames vars).Nodup} {s s' : Sys n κ δ ε ω} {fw : Cfg n κ δ ε ω}

/-- Clients open `load_list` when they like, every allocation succeeds and so does `rpmsg_send`, a call
that was told the number of the variables goes on when no other one is in its loop, no wait is
interrupted, and no request stays pending for more than `2 ^ 32` further ones. -/
def Boots (names : Names) (s : Sys n κ δ ε ω) (e : Event) : Prop :=
  Young s.k ∧ match e with
    | .client e => Faultless names s.k e ∧ Alone s.k e
    | _ => True

/-- Nobody opens the file any more. -/
def Closes (names : Names) (s : Sys n κ δ ε ω) (e : Event) : Prop :=
  Boots names s e ∧ ∀ e', e = .client e' → Continues e'

/-- **The invariant**. -/
structure Boot (vars : Table n κ δ) (hd : (sentNames vars).Nodup) (s : Sys n κ δ ε ω) : Prop where
  listed : Listed (namesOf vars hd) s.k
  table : s.fw.w.vars = vars
  awaited : Awaited s.delivered s.k
  delivered_le : s.delivered ≤ s.served
  served_le : s.served ≤ s.k.link.wire.length
  replies_length : s.replies.length = s.served
  reply : ∀ (j : ℕ) rep, s.replies[j]? = some rep →
    ∃ m, s.k.link.wire[j]? = some m ∧ Kernel.LoadList.Answers (namesOf vars hd) m rep

lemma boot_start (fw : Cfg n κ δ ε ω) (hd : (sentNames fw.w.vars).Nodup) :
    Boot fw.w.vars hd (start .probed fw) where
  listed := listed_probed _
  table := rfl
  awaited := ⟨⟨fun _ ht => absurd ht List.not_mem_nil, fun j _ hj => absurd hj (Nat.not_lt_zero j)⟩,
    fun _ _ hf => absurd hf Driver.not_files_probed⟩
  delivered_le := le_rfl
  served_le := le_rfl
  replies_length := rfl
  reply _ _ h := absurd h (Option.some_ne_none _).symm

lemma Boot.of_call {k' : Driver} {hist' : History n κ δ ε ω} (h : Boot vars hd s)
    (hl : Listed (namesOf vars hd) k') (ha : Awaited s.delivered k') (hs : Kernel.Leaks.Sends s.k k') :
    Boot vars hd { s with k := k', hist := hist' } := by
  have hw : s.k.link.wire <+: k'.link.wire := by
    rcases hs with hu | ⟨t, x, m, hr⟩
    · exact hu.wire.symm ▸ List.prefix_refl _
    · exact hr.wire.symm ▸ List.prefix_append ..
  refine ⟨hl, h.table, ha, h.delivered_le, h.served_le.trans hw.length_le, h.replies_length,
    fun j rep hj => ?_⟩
  obtain ⟨m, hm, hans⟩ := h.reply j rep hj
  exact ⟨m, getElem?_of_isPrefix hw hm, hans⟩

lemma orderly_of_faultless {names : Names} {k : Driver} {e : Kernel.Files.Event} (hf : Faultless names k e) :
    Kernel.Leaks.Orderly k e := by
  cases e with
  | openLl => trivial
  | llCount => exact hf
  | llCounted => trivial
  | llQuery => exact hf
  | llNamed => trivial
  | reply => trivial
  | _ => exact hf.elim

theorem boot_client {e : Kernel.Files.Event} (h : Boot vars hd s)
    (hp : Boots (namesOf vars hd) s (.client e)) (hs : step kstrtol sem s (.client e) = some s') :
    Boot vars hd s' := by
  obtain ⟨-, hf, ha⟩ := hp
  have he : ∀ data, e ≠ .reply data := by
    rintro data rfl
    cases hs
  obtain ⟨k', hk, rfl⟩ := step_client hs
  have hl := listed_step h.listed hf ha hk
  have hinv := h.listed.traffic.inv
  have hsends := Kernel.Leaks.step_sends hinv.sane (orderly_of_faultless hf) hk he
  have hd' := h.delivered_le.trans h.served_le
  refine h.of_call hl ?_ hsends
  by_cases hc : Continues e
  · obtain ⟨f, file, phase, hm⟩ := moves_step h.listed hf ha hc hk
    exact h.awaited.of_moves hd' h.listed.traffic.drawn hm
  · cases leads_of_step hk with
    | openLl hfile hcall =>
      obtain ⟨hacts, file, hf', hphase⟩ := openLl_acts hinv.sane hcall
      obtain ⟨hb, -⟩ := Kernel.Counting.openLl_beside hcall
      refine h.awaited.of_acts (h.listed.traffic.drawn.symm ▸ hd') hacts hsends hb.nVars ?_
      intro file' hfile'
      obtain rfl := Option.some.inj (hf'.symm.trans hfile')
      unfold Wakes
      rcases hphase with hphase | hphase <;> rw [hphase] <;> trivial
    | reply => exact absurd rfl (he _)
    | llCount => exact absurd trivial hc
    | llCounted => exact absurd trivial hc
    | llQuery => exact absurd trivial hc
    | llNamed => exact absurd trivial hc
    | _ => exact hf.elim

theorem boot_serve (h : Boot vars hd s) (hs : step kstrtol sem s .serve = some s') : Boot vars hd s' := by
  obtain ⟨m, hm, -⟩ := Option.bind_eq_some_iff.1 hs
  obtain ⟨rep, hseq, hc, hvars, e⟩ := serve_spec hm hs
  have hproper := (h.listed.traffic.request _ m hm).2
  have hlt : s.served < s.k.link.wire.length := (List.getElem?_eq_some_iff.1 hm).1
  have hans : Kernel.LoadList.Answers (namesOf vars hd) m rep := answers_of_carries h.table hseq hc
  have hkeep : s'.fw.w.vars = vars := by
    rw [hvars, ← h.table]
    rcases serve_proper hproper with hq | ⟨k, -, hq⟩ <;> rw [hq] <;> rfl
  have hl := h.replies_length
  have hdel := h.delivered_le
  rw [e]
  refine ⟨h.listed, hkeep, h.awaited, hdel.trans (Nat.le_succ _), hlt, by simp [hl], fun j rep' hj => ?_⟩
  rcases getElem?_concat_cases hj with hj | ⟨rfl, rfl⟩
  · exact h.reply j rep' hj
  · exact ⟨m, hl ▸ hm, hans⟩

theorem boot_deliver (h : Boot vars hd s) (hy : Young s.k) (hs : step kstrtol sem s .deliver = some s') :
    Boot vars hd s' := by
  obtain ⟨rep, hrep, hs⟩ := Option.bind_eq_some_iff.1 hs
  obtain rfl := Option.some.inj hs
  obtain ⟨m, hm, hans⟩ := h.reply _ _ hrep
  have htraffic := h.listed.traffic
  have hlt : s.delivered < s.served := h.replies_length ▸ (List.getElem?_eq_some_iff.1 hrep).1
  have hwire := (List.getElem?_eq_some_iff.1 hm).1
  obtain ⟨t, ht, hn⟩ := h.awaited.backlog.all _ le_rfl (htraffic.drawn.symm ▸ hwire)
  have hreq : s.k.link.wire[s.k.link.number t]? = some m := hn.symm ▸ hm
  have hreceived : CfgMsg.received rep.encode = some rep := rep.received_encode
  have hl := listed_reply h.listed hy ⟨t, ht, m, hreq, rep, hreceived, hans⟩
  rw [rpmsgCb_of_answers htraffic hy ht hreq hreceived hans] at hl ⊢
  exact ⟨hl, h.table, h.awaited.of_reply htraffic ht hn hm hans, hlt, h.served_le, h.replies_length, h.reply⟩

theorem boot_step {e : Event} (h : Boot vars hd s) (hp : Boots (namesOf vars hd) s e)
    (hs : step kstrtol sem s e = some s') : Boot vars hd s' := by
  cases e with
  | client e => exact boot_client h hp hs
  | serve => exact boot_serve h hs
  | deliver => exact boot_deliver h hp.1 hs

/-! ### The directories -/

/-- The directory of every kind has one file for every variable of the table, in its order, with its name
and a record of its index; and there are no other files. -/
structure Mirrors (vars : Table n κ δ) (k : Driver) : Prop where
  files : ∀ kind : Kind, ((k.debugfs.filter fun x => x.parent = some kind).reverse.map fun x =>
      (x.name, k.records x.data.1 x.data.2)) =
    List.ofFn fun i : Fin n.1 => (sentName (vars i), ⟨Int32.ofNat i, kind.access⟩)
  inside : ∀ x ∈ k.debugfs, x.parent ≠ none

lemma mirrors_of_complete {k : Driver} (h : Complete (namesOf vars hd) k) : Mirrors vars k := by
  refine ⟨fun kind => (h.files kind).trans ?_, h.inside⟩
  apply List.ext_getElem
  · rw [List.length_mapIdx, length_names, List.length_ofFn]
  · intro i hi hi'
    rw [List.length_ofFn] at hi'
    rw [List.getElem_mapIdx, List.getElem_ofFn, List.getElem_eq_getD []]
    exact congrArg (Prod.mk · _) (names_getD vars hd ⟨i, hi'⟩)

lemma boot_run {es : List Event} (hd : (sentNames fw.w.vars).Nodup)
    (hp : Steps (step kstrtol sem) (Boots (namesOf fw.w.vars hd)) (start .probed fw) es)
    (hr : run (step kstrtol sem) (start .probed fw) es = some s) : Boot fw.w.vars hd s :=
  run_invariant_of_steps (fun _ _ _ h hp hs => boot_step h hp hs) (boot_start fw hd) hp hr

/-- **The list that Linux has loaded is the table of the firmware**, in every state in which all calls have
returned, however the calls, the firmware and the channels have taken turns. -/
theorem mirrors_run {es : List Event} (hd : (sentNames fw.w.vars).Nodup)
    (hp : Steps (step kstrtol sem) (Boots (namesOf fw.w.vars hd)) (start .probed fw) es) :
    States (step kstrtol sem) (fun s => s.fw.w.vars = fw.w.vars ∧ (Done s.k → Mirrors fw.w.vars s.k))
      (start .probed fw) es := by
  intro pre hpre s hr
  have h := boot_run hd (steps_of_isPrefix hp hpre) hr
  exact ⟨h.table, fun hdone => mirrors_of_complete (h.listed.stage.complete hdone)⟩

/-! ### The end of loading -/

/-- How many steps the calls on the files of `S`, the firmware and the channels have before them. -/
def work (S : Finset FileId) (s : Sys n κ δ ε ω) : ℕ :=
  (∑ f ∈ S, (s.k.files f).elim 0 fun file => rest n.1 file.phase) +
    (2 * (s.k.link.wire.length - s.served) + (s.served - s.delivered))

/-- All replies have arrived, all calls have returned, and have left the list of the variables. -/
structure Finished (vars : Table n κ δ) (s : Sys n κ δ ε ω) : Prop where
  quiet : Quiet s
  ready : ∀ f file, s.k.files f = some file → file.phase = .ready
  mirrors : s.k.log ≠ [] → Mirrors vars s.k

/-- Only the files of `S` are open, and the requests that are still to come do not use up the sequence
numbers. -/
structure Loading (vars : Table n κ δ) (hd : (sentNames vars).Nodup) (S : Finset FileId)
    (s : Sys n κ δ ε ω) : Prop where
  boot : Boot vars hd s
  files : ∀ f ∉ S, s.k.files f = none
  few : s.k.link.drawn + work S s ≤ 2 ^ 32

variable {S : Finset FileId}

lemma Loading.young (h : Loading vars hd S s) : Young s.k := by
  intro t _
  have hfew := h.few
  omega

lemma work_client {e : Kernel.Files.Event} (h : Loading vars hd S s)
    (hp : Closes (namesOf vars hd) s (.client e)) (hs : step kstrtol sem s (.client e) = some s') :
    work S s' < work S s ∧ (∀ f ∉ S, s'.k.files f = none) ∧ s'.k.link.drawn ≤ s.k.link.drawn + 1 := by
  obtain ⟨⟨-, hf, ha⟩, hc⟩ := hp
  have he : ∀ data, e ≠ .reply data := by
    rintro data rfl
    cases hs
  obtain ⟨k', hk, rfl⟩ := step_client hs
  obtain ⟨f, file, phase, hm⟩ := moves_step h.boot.listed hf ha (hc e rfl) hk
  have hlt := rest_lt hm.next
  rw [length_names] at hlt
  have hfS : f ∈ S := by
    by_contra hn
    exact absurd (hm.before.symm.trans (h.files f hn)) (Option.some_ne_none _)
  have hothers : ∑ g ∈ S.erase f, (k'.files g).elim 0 (fun file => rest n.1 file.phase) =
      ∑ g ∈ S.erase f, (s.k.files g).elim 0 fun file => rest n.1 file.phase :=
    Finset.sum_congr rfl fun g hg => by rw [hm.acts.files g (Finset.ne_of_mem_erase hg)]
  refine ⟨?_, fun g hg => ?_, ?_⟩
  · unfold work
    rw [← Finset.add_sum_erase S _ hfS, ← Finset.add_sum_erase S _ hfS, hothers, hm.before, hm.after]
    have hserved := h.boot.served_le
    show rest n.1 phase + _ + (2 * (k'.link.wire.length - s.served) + _) < _
    dsimp only [Option.elim]
    omega
  · have hne : g ≠ f := by
      rintro rfl
      exact hg hfS
    exact (hm.acts.files g hne).trans (h.files g hg)
  · rcases Kernel.Leaks.step_sends h.boot.listed.traffic.inv.sane (orderly_of_faultless hf) hk he with
      hu | ⟨t, x, m, hr⟩
    · exact hu.drawn.le.trans (Nat.le_succ _)
    · exact hr.drawn.le

lemma work_serve (h : Boot vars hd s) (hs : step kstrtol sem s .serve = some s') :
    work S s' < work S s ∧ s'.k = s.k := by
  obtain ⟨m, hm, -⟩ := Option.bind_eq_some_iff.1 hs
  obtain ⟨hk, hserved, hdel, -⟩ := serve_keeps hs
  have hlt := (List.getElem?_eq_some_iff.1 hm).1
  have hle := h.delivered_le
  refine ⟨?_, hk⟩
  unfold work
  rw [hk, hserved, hdel]
  omega

lemma work_deliver (h : Boot vars hd s) (hy : Young s.k) (hs : step kstrtol sem s .deliver = some s') :
    work S s' < work S s ∧ s'.k.files = s.k.files ∧ s'.k.link.drawn = s.k.link.drawn := by
  obtain ⟨rep, hrep, -⟩ := Option.bind_eq_some_iff.1 hs
  obtain ⟨hfiles, -, hwire, hserved, hdel, -⟩ := deliver_keeps hs
  have hlt : s.delivered < s.served := h.replies_length ▸ (List.getElem?_eq_some_iff.1 hrep).1
  have hd₁ := h.listed.traffic.drawn
  have hd₂ := (boot_deliver h hy hs).listed.traffic.drawn
  refine ⟨?_, hfiles, by rw [hd₁, hd₂, hwire]⟩
  unfold work
  rw [hfiles, hwire, hserved, hdel]
  omega

theorem loading_decreases : Variant.Decreases (step kstrtol sem) (Loading vars hd S)
    (Closes (namesOf vars hd)) (work S) := by
  refine ⟨fun s e s' h hp hs => ?_, fun s e s' h hp hs => ?_⟩
  · have hboot := boot_step h.boot hp.1 hs
    have hfew := h.few
    cases e with
    | client e =>
      obtain ⟨hlt, hfiles, hdrawn⟩ := work_client h hp hs
      exact ⟨hboot, hfiles, by omega⟩
    | serve =>
      obtain ⟨hlt, hk⟩ := work_serve (S := S) h.boot hs
      exact ⟨hboot, fun f hf => by rw [hk]; exact h.files f hf, by rw [hk]; omega⟩
    | deliver =>
      obtain ⟨hlt, hfiles, hdrawn⟩ := work_deliver (S := S) h.boot h.young hs
      exact ⟨hboot, fun f hf => by rw [hfiles]; exact h.files f hf, by rw [hdrawn]; omega⟩
  · cases e with
    | client e => exact (work_client h hp hs).1
    | serve => exact (work_serve h.boot hs).1
    | deliver => exact (work_deliver h.boot h.young hs).1

/-- **Some step can be taken** until all calls have returned. -/
theorem loading_progresses : Variant.Progresses (step kstrtol sem) (Loading vars hd S)
    (Closes (namesOf vars hd)) (Finished vars) := by
  intro s h hnot
  have hboot := h.boot
  have hdrawn := hboot.listed.traffic.drawn
  by_cases hserve : s.served < s.k.link.wire.length
  · obtain ⟨m, hm⟩ : ∃ m, s.k.link.wire[s.served]? = some m := ⟨_, List.getElem?_eq_getElem hserve⟩
    obtain ⟨s', hs⟩ : ∃ s', step kstrtol sem s .serve = some s' := serve_goes hm
    exact ⟨.serve, s', ⟨⟨h.young, trivial⟩, fun _ he => by cases he⟩, hs⟩
  by_cases hdeliver : s.delivered < s.served
  · obtain ⟨rep, hrep⟩ : ∃ rep, s.replies[s.delivered]? = some rep :=
      ⟨_, List.getElem?_eq_getElem (hboot.replies_length.symm ▸ hdeliver)⟩
    obtain ⟨s', hs⟩ : ∃ s', step kstrtol sem s .deliver = some s' := deliver_goes hrep
    exact ⟨.deliver, s', ⟨⟨h.young, trivial⟩, fun _ he => by cases he⟩, hs⟩
  -- no reply is on its way
  have hdel : s.delivered = s.k.link.wire.length := by
    have hle := hboot.delivered_le
    have hle' := hboot.served_le
    omega
  have hopen : ∃ f file, s.k.files f = some file ∧ file.phase ≠ .ready := by
    by_contra hall
    have hready : ∀ f file, s.k.files f = some file → file.phase = .ready := fun f file hf => by
      by_contra hp
      exact hall ⟨f, file, hf, hp⟩
    refine hnot ⟨⟨?_, hdel⟩, hready, fun hlog => ?_⟩
    · exact Nat.le_antisymm hboot.served_le (Nat.not_lt.1 hserve)
    · exact mirrors_of_complete (hboot.listed.stage.complete ⟨hlog, hready⟩)
  obtain ⟨f, file, hf, hp⟩ := hopen
  have hwoken : ∀ f file, s.k.files f = some file → Woken s.k file := fun f file hf =>
    hboot.awaited.woken hboot.listed.traffic.inv.sane (hdrawn.trans hdel.symm).le hdel.ge hf
  have hcan : Can (namesOf vars hd) kstrtol s.k := goes_on hboot.listed h.young hwoken hf hp
  obtain ⟨e, k', hfault, halone, hc, hk⟩ := hcan
  have hs : ∃ s', step kstrtol sem s (.client e) = some s' := by
    cases e with
    | reply => exact hc.elim
    | _ =>
      simp only [step, hk, Option.bind_eq_bind, Option.bind_some]
      exact ⟨_, rfl⟩
  obtain ⟨s', hs⟩ := hs
  exact ⟨.client e, s', ⟨⟨h.young, hfault, halone⟩, fun e' he' => by cases he'; exact hc⟩, hs⟩

/-- **Loading ends**: when the clients open no further files, only a bounded number of steps is left, a run
that cannot go on has all of its calls returned, and there is one. -/
theorem loading_ends {es : List Event} (hd : (sentNames fw.w.vars).Nodup)
    (hp : Steps (step kstrtol sem) (Boots (namesOf fw.w.vars hd)) (start .probed fw) es)
    (hr : run (step kstrtol sem) (start .probed fw) es = some s) (hS : ∀ f ∉ S, s.k.files f = none)
    (hfew : s.k.link.drawn + work S s ≤ 2 ^ 32) :
    (∀ es' s', Steps (step kstrtol sem) (Closes (namesOf fw.w.vars hd)) s es' →
      run (step kstrtol sem) s es' = some s' → es'.length ≤ work S s ∧
        ((∀ e t, Closes (namesOf fw.w.vars hd) s' e → step kstrtol sem s' e ≠ some t) → Finished fw.w.vars s')) ∧
    ∃ es' s', Steps (step kstrtol sem) (Closes (namesOf fw.w.vars hd)) s es' ∧
      run (step kstrtol sem) s es' = some s' ∧ Finished fw.w.vars s' := by
  have h : Loading fw.w.vars hd S s := ⟨boot_run hd hp hr, hS, hfew⟩
  refine ⟨fun es' s' hes hr' => ⟨?_, fun hstuck => ?_⟩, ?_⟩
  · have hle := (Variant.length_le loading_decreases h hes hr').2
    omega
  · exact Variant.final_of_stuck loading_decreases loading_progresses h hes hr' hstuck
  · have hprog : Variant.Progresses (step kstrtol sem) (Loading fw.w.vars hd S)
        (Closes (namesOf fw.w.vars hd)) (Finished fw.w.vars) := loading_progresses
    obtain ⟨es', s', hes, hr', -, hfinal⟩ := Variant.exists_final loading_decreases hprog h
    exact ⟨es', s', hes, hr', hfinal⟩

end Run

/-! ### Two clients -/

section Two

open CfgMgmt.Kernel.Leaks (noStrtol)

variable {n : VarCount} {κ δ ε ω : Type}

lemma speed_distinct : (sentNames speedFw.w.vars).Nodup := by decide

/-- Two clients open `load_list`, and are told that there is one variable. -/
def bothCount : List Event :=
  [.client (.openLl 0 true false false true), .client (.llCount 0 true 0),
    .client (.openLl 1 true false false true), .serve, .client (.llCount 1 true 0), .deliver, .serve, .deliver]

/-- The first one loads it. -/
def firstLoads : List Event :=
  [.client (.llCounted 0 false (fun _ => true) fun _ => true), .client (.llQuery 0 0), .serve, .deliver,
    .client (.llNamed 0 false fun _ => true), .client (.llQuery 0 0)]

/-- The second one goes on. -/
def secondStops : List Event := [.client (.llCounted 1 false (fun _ => true) fun _ => true)]

/-- The calls come one after the other. -/
def Turn (s : Sys n κ δ ε ω) : Event → Prop
  | .client e => InTurn s.k e
  | _ => True

/-- The phases of the files after a run, one by one. -/
def PhasesIn (p q : Phase) (es : List Event) (f : FileId) : Bool :=
  (run (step noStrtol noCbs) (start .probed speedFw) es).any fun s => InPhase p q s.k f

set_option maxRecDepth 20000 in
lemma bothCount_waits (f : FileId) : PhasesIn .ready .count bothCount f = true := by
  rcases f with _ | _ | f
  · decide +kernel
  · decide +kernel
  · exact rfl

set_option maxRecDepth 20000 in
lemma firstLoads_waits (f : FileId) : PhasesIn .ready .count (bothCount ++ firstLoads) f = true := by
  rcases f with _ | _ | f
  · decide +kernel
  · decide +kernel
  · exact rfl

set_option maxRecDepth 20000 in
lemma both_ready (f : FileId) :
    PhasesIn .ready .ready (bothCount ++ firstLoads ++ secondStops) f = true := by
  rcases f with _ | _ | f
  · decide +kernel
  · decide +kernel
  · exact rfl

lemma phase_of_phasesIn {p q : Phase} {es : List Event} {s : Sys _ Empty Unit Unit Empty}
    (h : ∀ f, PhasesIn p q es f = true)
    (hr : run (step noStrtol noCbs) (start .probed speedFw) es = some s) {f : FileId} {file : File}
    (hf : s.k.files f = some file) : file.phase = p ∨ file.phase = q := by
  have hphase := h f
  unfold PhasesIn at hphase
  rw [hr, Option.any_some] at hphase
  exact phase_of_inPhase hphase hf

lemma turn_of_phasesIn {es : List Event} {e : Kernel.Files.Event} {s : Sys _ Empty Unit Unit Empty}
    (h : ∀ f, PhasesIn .ready .count es f = true)
    (hr : run (step noStrtol noCbs) (start .probed speedFw) es = some s) : Turn s (.client e) := by
  cases e with
  | llCounted f intr mem dirMem =>
    intro _ g file hg hb
    unfold Busy at hb
    rcases phase_of_phasesIn h hr hg with hp | hp <;> rw [hp] at hb <;> exact hb
  | _ => trivial

/-- What does not depend on the other files. -/
def Single (names : Names) (s : Sys n κ δ ε ω) (e : Event) : Prop :=
  Young s.k ∧ match e with
    | .client e => Faultless names s.k e ∧ Uninterrupted e ∧ Young s.k
    | _ => True

instance (names : Names) (s : Sys n κ δ ε ω) : (e : Event) → Decidable (Single names s e)
  | .client _ => inferInstanceAs (Decidable (_ ∧ _ ∧ _ ∧ _))
  | .serve => inferInstanceAs (Decidable (_ ∧ True))
  | .deliver => inferInstanceAs (Decidable (_ ∧ True))

lemma boots_of_single {names : Names} {s : Sys n κ δ ε ω} {e : Event} (h : Single names s e)
    (ht : Turn s e) : Boots names s e := by
  obtain ⟨hy, h⟩ := h
  cases e with
  | client e =>
    obtain ⟨hf, hu, -⟩ := h
    exact ⟨hy, hf, ht, hu, hy⟩
  | serve => exact ⟨hy, trivial⟩
  | deliver => exact ⟨hy, trivial⟩

set_option maxRecDepth 20000 in
lemma speed_single : Steps (step noStrtol noCbs) (Single (namesOf speedFw.w.vars speed_distinct))
    (start .probed speedFw) (bothCount ++ firstLoads ++ secondStops) := by
  decide +kernel

lemma speed_turn : Steps (step noStrtol noCbs) Turn (start .probed speedFw)
    (bothCount ++ firstLoads ++ secondStops) := by
  refine steps_append.2 ⟨steps_append.2 ⟨?_, fun s hr => ?_⟩, fun s hr => ?_⟩
  · exact ⟨trivial, fun _ _ => ⟨trivial, fun _ _ => ⟨trivial, fun _ _ => ⟨trivial, fun _ _ => ⟨trivial,
      fun _ _ => ⟨trivial, fun _ _ => ⟨trivial, fun _ _ => ⟨trivial, fun _ _ => trivial⟩⟩⟩⟩⟩⟩⟩⟩
  · exact ⟨turn_of_phasesIn bothCount_waits hr, fun _ _ => ⟨trivial, fun _ _ => ⟨trivial, fun _ _ =>
      ⟨trivial, fun _ _ => ⟨trivial, fun _ _ => ⟨trivial, fun _ _ => trivial⟩⟩⟩⟩⟩⟩
  · exact ⟨turn_of_phasesIn firstLoads_waits hr, fun _ _ => trivial⟩

lemma speed_boots : Steps (step noStrtol noCbs) (Boots (namesOf speedFw.w.vars speed_distinct))
    (start .probed speedFw) (bothCount ++ firstLoads ++ secondStops) :=
  (speed_single.and speed_turn).mono fun _ _ h => boots_of_single h.1 h.2

/-- The list that both clients leave is the table. -/
theorem speed_mirrors : ∃ s, run (step noStrtol noCbs) (start .probed speedFw)
      (bothCount ++ firstLoads ++ secondStops) = some s ∧ Done s.k ∧ Mirrors speedFw.w.vars s.k := by
  have hrun : ((run (step noStrtol noCbs) (start .probed speedFw)
      (bothCount ++ firstLoads ++ secondStops)).any fun s => decide (s.k.log ≠ [])) = true := by
    decide +kernel
  obtain ⟨s, hr, hlog⟩ := (Option.any_eq_true ..).1 hrun
  have hdone : Done s.k :=
    ⟨of_decide_eq_true hlog, fun f file hf => (phase_of_phasesIn both_ready hr hf).elim id id⟩
  exact ⟨s, hr, hdone, (mirrors_run speed_distinct speed_boots _ (List.prefix_refl _) s hr).2 hdone⟩

set_option maxRecDepth 20000 in
lemma bothCount_files (f : FileId) : ((run (step noStrtol noCbs) (start .probed speedFw) bothCount).any
    fun s => (s.k.files (f + 2)).isNone) = true := rfl

/-- From where both were told the number of the variables, loading ends. -/
theorem bothCount_ends : ∃ s es' s', run (step noStrtol noCbs) (start .probed speedFw) bothCount = some s ∧
    es'.length ≤ 12 ∧ run (step noStrtol noCbs) s es' = some s' ∧ Finished speedFw.w.vars s' := by
  have hrun : ((run (step noStrtol noCbs) (start .probed speedFw) bothCount).any fun s =>
      decide (s.k.link.drawn + work {0, 1} s ≤ 2 ^ 32 ∧ work {0, 1} s ≤ 12)) = true := by
    decide +kernel
  obtain ⟨s, hr, hwork⟩ := (Option.any_eq_true ..).1 hrun
  obtain ⟨hfew, hle⟩ := of_decide_eq_true hwork
  have hfiles : ∀ f ∉ ({0, 1} : Finset FileId), s.k.files f = none := by
    intro f hf
    rcases f with _ | _ | f
    · exact absurd (by decide) hf
    · exact absurd (by decide) hf
    · have hnone := bothCount_files f
      rw [hr, Option.any_some] at hnone
      exact Option.isNone_iff_eq_none.1 hnone
  have hp := steps_of_isPrefix speed_boots ⟨firstLoads ++ secondStops, (List.append_assoc ..).symm⟩
  obtain ⟨hall, es', s', hes, hr', hfinal⟩ := loading_ends speed_distinct hp hr hfiles hfew
  exact ⟨s, es', s', hr, (hall es' s' hes hr').1.trans hle, hr', hfinal⟩

end Two

end CfgMgmt.System.Bringup
