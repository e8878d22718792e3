import CfgMgmt.Lib.Variant
import CfgMgmt.System.RoundTrip

/-!
# Nobody waits for ever

A client that waits for a reply can return as soon as enough replies were delivered, whatever the others do
in the meantime (`waiting_ends`); and what is on its way can always arrive, so that nobody is left waiting
(`drains`).
-/

namespace CfgMgmt.System.Draining

open CfgMgmt.Lib CfgMgmt.Lib.Bytes CfgMgmt.Lib.Machine CfgMgmt.Msg CfgMgmt.Firmware.Config
open CfgMgmt.Kernel.Linux CfgMgmt.Kernel.RpmsgLink CfgMgmt.Kernel.Files CfgMgmt.Kernel.Structs
open CfgMgmt.Kernel.Calls CfgMgmt.Kernel.Sessions
open CfgMgmt.Kernel.Matching (Young)
open CfgMgmt.System.RoundTrip (Quiet serve_goes deliver_goes deliver_keeps client_step)

section

variable {n : VarCount} {κ δ ε ω : Type} {kstrtol : List UInt8 → Int32 × Int32} {sem : CbSem n κ δ ε ω}
  {first : ℕ} {s s' : Sys n κ δ ε ω} {f : FileId} {file : File}

/-! ### Calls that return -/

/-- The call on the file waits for a reply, or a read would. -/
def Asking (file : File) : Prop := file.fModeRead = true ∨ file.phase = .closing

/-- A read of the file returns what the reply has brought, and a close returns 0. -/
structure Returns (kstrtol : List UInt8 → Int32 × Int32) (sem : CbSem n κ δ ε ω) (f : FileId) (file : File)
    (s : Sys n κ δ ε ω) : Prop where
  read : file.phase = .ready → file.fModeRead = true → ∀ len own uncopied, ∃ t,
    step kstrtol sem s (.client (.read f len own false uncopied)) = some t ∧
      t.k.log = s.k.log ++ [(f, .read (simpleReadFromBuffer len (own.getD file.pos)
        (s.k.transOf file).buf.bytes (s.k.transOf file).len.toUInt32.toNat uncopied).1)]
  close : file.phase = .closing → ∃ t, step kstrtol sem s (.client (.releaseWoken f false)) = some t ∧
    t.k.log = s.k.log ++ [(f, .released 0)]

lemma returns_of_answered {j : ℕ} (hf : s.k.files f = some file) (h : Answered s file j) :
    Returns kstrtol sem f file s := by
  have hv : (s.k.transOf file).valid = true := h.valid
  have he : (s.k.transOf file).err = 0 := h.err
  refine ⟨fun hready hread len own uncopied => ?_, fun hclosing => ?_⟩
  · obtain ⟨k', hk⟩ : ∃ k', s.k.debugfsReadVar f file len own false uncopied = some k' := by
      unfold Driver.debugfsReadVar
      simp [hv, he]
    have hstep : Kernel.Files.step kstrtol s.k (.read f len own false uncopied) = some k' := by
      simp [Kernel.Files.step, hf, hready, hread, hk]
    exact ⟨_, client_step hstep rfl, (readVar_valid hf hv he hk).2.2⟩
  · obtain ⟨k', hk⟩ : ∃ k', s.k.debugfsReleaseVarWoken f file false = some k' := by
      unfold Driver.debugfsReleaseVarWoken
      simp [hv, he]
    have hstep : Kernel.Files.step kstrtol s.k (.releaseWoken f false) = some k' := by
      simp [Kernel.Files.step, hf, hclosing, hk]
    refine ⟨_, client_step hstep rfl, ?_⟩
    rw [releaseVarWoken_valid hv he hk]
    rfl

/-! ### One client among the others -/

/-- The event is not a call on the file `f`. -/
def Apart (f : FileId) : Event → Prop
  | .client e => fileOf e ≠ some f
  | _ => True

def deliveries (es : List Event) : ℕ := es.countP fun | .deliver => true | _ => false

/-- What a client that waits relies on. -/
structure Waits (kstrtol : List UInt8 → Int32 × Int32) (sem : CbSem n κ δ ε ω) (first : ℕ) (f : FileId)
    (file : File) (j d : ℕ) (s : Sys n κ δ ε ω) : Prop where
  flow : Flow kstrtol sem first s
  file : s.k.files f = some file
  request : (s.hist.record f).request = j
  delivered : s.delivered = d

lemma waits_step {j d : ℕ} {e : Event} (h : Waits kstrtol sem first f file j d s) (hp : Polite s e)
    (ha : Apart f e) (hs : step kstrtol sem s e = some s') :
    Waits kstrtol sem first f file j (d + deliveries [e]) s' := by
  have hflow := flow_step h.flow hp hs
  cases e with
  | serve =>
    obtain ⟨hk, -, hd, hhist⟩ := serve_keeps hs
    exact ⟨hflow, hk ▸ h.file, by rw [hhist]; exact h.request, hd.trans h.delivered⟩
  | deliver =>
    obtain ⟨hfiles, -, -, -, hd, -, -, hhist⟩ := deliver_keeps hs
    exact ⟨hflow, by rw [hfiles]; exact h.file, by rw [hhist]; exact h.request,
      by rw [hd, h.delivered]; rfl⟩
  | client e =>
    obtain ⟨k', hk, rfl⟩ := step_client hs
    obtain ⟨g, hg, hacts⟩ := acts_client h.flow hp hk
    have hne : f ≠ g := by
      rintro rfl
      exact ha hg
    have hrec : Recorded g s.hist (observe kstrtol s.k k' s.hist e) := recorded_observe hg
    exact ⟨hflow, (hacts.files f hne).trans h.file,
      (congrArg FileRecord.request (hrec.record f hne)).trans h.request, h.delivered⟩

lemma waits_run {j d : ℕ} {es : List Event} (h : Waits kstrtol sem first f file j d s)
    (hp : Steps (step kstrtol sem) Polite s es) (ha : ∀ e ∈ es, Apart f e)
    (hr : run (step kstrtol sem) s es = some s') :
    Waits kstrtol sem first f file j (d + deliveries es) s' := by
  induction es generalizing s d with
  | nil =>
    obtain rfl := Option.some.inj hr
    exact h
  | cons e es ih =>
    obtain ⟨t, ht, hr⟩ := run_cons_eq_some.1 hr
    obtain ⟨hpe, hp⟩ := (steps_cons ht).1 hp
    have hw := ih (waits_step h hpe (ha e List.mem_cons_self) ht) hp
      (fun e' he' => ha e' (List.mem_cons_of_mem _ he')) hr
    have hcount : d + deliveries (e :: es) = d + deliveries [e] + deliveries es := by
      have happ : deliveries ([e] ++ es) = deliveries [e] + deliveries es := List.countP_append ..
      rw [← List.singleton_append, happ, Nat.add_assoc]
    rw [hcount]
    exact hw

/-- When the reply to its request was delivered, the call returns. -/
lemma Waits.returns {j d : ℕ} (h : Waits kstrtol sem first f file j d s) (hask : Asking file) (hj : j < d) :
    Returns kstrtol sem f file s := by
  have hans := ((h.flow.files f file h.file).exchange hask).resolve_left fun hw => by
    have hge := h.flow.pending_ge _ hw.pending
    have hnum := hw.number
    rw [h.request] at hnum
    have hd := h.delivered
    omega
  exact returns_of_answered h.file hans

/-- **A wait ends** after a number of deliveries that is known when it begins: whatever the others do in the
meantime, when the reply to its request was delivered the call can return. -/
theorem waiting_ends {idle : Idle} {fw : Cfg n κ δ ε ω} {es es' : List Event}
    (hp : Steps (step kstrtol sem) Polite (start idle fw) es)
    (hr : run (step kstrtol sem) (start idle fw) es = some s) (hf : s.k.files f = some file)
    (hask : Asking file) (hp' : Steps (step kstrtol sem) Polite s es') (ha : ∀ e ∈ es', Apart f e)
    (hr' : run (step kstrtol sem) s es' = some s')
    (hcount : (s.hist.record f).request < s.delivered + deliveries es') :
    Returns kstrtol sem f file s' := by
  have hwaits : Waits kstrtol sem idle.k.link.drawn f file (s.hist.record f).request s.delivered s :=
    ⟨flow_run hp hr, hf, rfl, rfl⟩
  exact (waits_run hwaits hp' ha hr').returns hask hcount

/-- A client opens the file of the value. -/
def opensValue : List Event := [.client (.openVar 0 ⟨0, .val⟩ true false false true 0)]

/-- Another one writes it, and the firmware serves both of them. -/
def meanwhile : List Event :=
  [.client (.openVar 1 ⟨0, .val⟩ false true false true 0), .client (.write 1 [0x37] none 0), .serve,
    .client (.release 1 0), .deliver, .serve]

lemma meanwhile_apart : ∀ e ∈ meanwhile, Apart 0 e := by
  intro e he
  unfold meanwhile at he
  simp only [List.mem_cons, List.not_mem_nil, or_false] at he
  rcases he with rfl | rfl | rfl | rfl | rfl | rfl <;> simp [Apart, fileOf]

/-- The first one can read then. -/
theorem value_returns : ∃ s file s',
    run (step Kernel.Kstrtol.kstrtol noCbs) (start .probed speedFw) opensValue = some s ∧
    s.k.files 0 = some file ∧ run (step Kernel.Kstrtol.kstrtol noCbs) s meanwhile = some s' ∧
    Returns Kernel.Kstrtol.kstrtol noCbs 0 file s' := by
  have hrun : ((run (step Kernel.Kstrtol.kstrtol noCbs) (start .probed speedFw) opensValue).any fun s =>
      (s.k.files 0).any fun file => file.fModeRead && decide ((s.hist.record 0).request < s.delivered + 1) &&
        decide (Steps (step Kernel.Kstrtol.kstrtol noCbs) Polite s meanwhile) &&
        (run (step Kernel.Kstrtol.kstrtol noCbs) s meanwhile).isSome) = true := by
    decide +kernel
  obtain ⟨s, hr, hrun⟩ := (Option.any_eq_true ..).1 hrun
  obtain ⟨file, hf, hrun⟩ := (Option.any_eq_true ..).1 hrun
  simp only [Bool.and_eq_true, decide_eq_true_eq] at hrun
  obtain ⟨⟨⟨hread, hlt⟩, hp'⟩, hrun⟩ := hrun
  obtain ⟨s', hr'⟩ := Option.isSome_iff_exists.1 hrun
  have hp : Steps (step Kernel.Kstrtol.kstrtol noCbs) Polite (start .probed speedFw) opensValue := by
    decide +kernel
  exact ⟨s, file, s', hr, hf, hr', waiting_ends hp hr hf (.inl hread) hp' meanwhile_apart hr' hlt⟩

/-! ### What is on its way -/

/-- The firmware serves a request, or a reply is delivered. -/
def Drains : Event → Prop
  | .client _ => False
  | _ => True

/-- How many steps it takes until everything has arrived. -/
def onTheWay (s : Sys n κ δ ε ω) : ℕ :=
  2 * (s.k.link.wire.length - s.served) + (s.served - s.delivered)

/-- The clients do nothing. -/
structure Still (kstrtol : List UInt8 → Int32 × Int32) (sem : CbSem n κ δ ε ω) (first : ℕ)
    (files : FileId → Option File) (s : Sys n κ δ ε ω) : Prop where
  flow : Flow kstrtol sem first s
  young : Young s.k
  files : s.k.files = files

variable {files : FileId → Option File}

lemma still_step {e : Event} (h : Still kstrtol sem first files s) (he : Drains e)
    (hs : step kstrtol sem s e = some s') :
    Still kstrtol sem first files s' ∧ onTheWay s' < onTheWay s := by
  cases e with
  | client e => exact he.elim
  | serve =>
    obtain ⟨m, hm, -⟩ := Option.bind_eq_some_iff.1 hs
    have hlt := (List.getElem?_eq_some_iff.1 hm).1
    obtain ⟨hk, hserved, hd, -⟩ := serve_keeps hs
    refine ⟨⟨flow_serve h.flow hs, hk ▸ h.young, hk ▸ h.files⟩, ?_⟩
    have hle := h.flow.delivered_le
    unfold onTheWay
    rw [hk, hserved, hd]
    omega
  | deliver =>
    obtain ⟨rep, hrep, t, ht, hn, e⟩ := deliver_spec h.flow h.young hs
    have hlt : s.delivered < s.served := h.flow.replies_length ▸ (List.getElem?_eq_some_iff.1 hrep).1
    have hyoung : Young s'.k := by
      rw [e]
      exact fun u hu => h.young u (List.mem_of_mem_erase hu)
    obtain ⟨hfiles, -, hwire, hserved, hd, -⟩ := deliver_keeps hs
    refine ⟨⟨flow_deliver h.flow h.young hs, hyoung, hfiles.trans h.files⟩, ?_⟩
    unfold onTheWay
    rw [hwire, hserved, hd]
    omega

lemma still_decreases :
    Variant.Decreases (step kstrtol sem) (Still kstrtol sem first files) (fun _ => Drains) onTheWay :=
  ⟨fun _ _ _ h he hs => (still_step h he hs).1, fun _ _ _ h he hs => (still_step h he hs).2⟩

/-- The firmware never refuses a request, and a reply can always be delivered. -/
lemma still_progresses :
    Variant.Progresses (step kstrtol sem) (Still kstrtol sem first files) (fun _ => Drains) Quiet := by
  intro s h hnot
  have hle := h.flow.delivered_le
  have hle' := h.flow.served_le
  by_cases hserve : s.served < s.k.link.wire.length
  · obtain ⟨s', hs⟩ : ∃ s', step kstrtol sem s .serve = some s' :=
      serve_goes (List.getElem?_eq_getElem hserve)
    exact ⟨.serve, s', trivial, hs⟩
  by_cases hdeliver : s.delivered < s.served
  · obtain ⟨s', hs⟩ : ∃ s', step kstrtol sem s .deliver = some s' :=
      deliver_goes (List.getElem?_eq_getElem (h.flow.replies_length.symm ▸ hdeliver))
    exact ⟨.deliver, s', trivial, hs⟩
  refine absurd ⟨?_, ?_⟩ hnot <;> omega

/-- Every client that waits can return. -/
def AllReturn (kstrtol : List UInt8 → Int32 × Int32) (sem : CbSem n κ δ ε ω) (s : Sys n κ δ ε ω) : Prop :=
  ∀ f file, s.k.files f = some file → Asking file → Returns kstrtol sem f file s

lemma Still.allReturn (h : Still kstrtol sem first files s) (hq : Quiet s) : AllReturn kstrtol sem s :=
  fun _ _ hf hask => returns_of_answered hf (hq.answered h.flow hf hask)

lemma polite_of_drains {es : List Event} (h : Still kstrtol sem first files s)
    (hes : Steps (step kstrtol sem) (fun _ => Drains) s es) : Steps (step kstrtol sem) Polite s es := by
  induction es generalizing s with
  | nil => trivial
  | cons e es ih =>
    obtain ⟨he, hes⟩ := hes
    refine ⟨⟨h.young, ?_⟩, fun s' hs => ih (still_step h he hs).1 (hes s' hs)⟩
    cases e with
    | client => exact he.elim
    | serve => trivial
    | deliver => trivial

/-- **Nobody is left waiting**: when the clients do nothing, the firmware and the channels go on for a
bounded number of steps only, and not until every client that waits can return; and they can go on. -/
theorem drains {idle : Idle} {fw : Cfg n κ δ ε ω} {es : List Event}
    (hp : Steps (step kstrtol sem) Polite (start idle fw) es)
    (hr : run (step kstrtol sem) (start idle fw) es = some s) (hy : Young s.k) :
    (∀ es' s', Steps (step kstrtol sem) (fun _ => Drains) s es' → run (step kstrtol sem) s es' = some s' →
      es'.length ≤ onTheWay s ∧
        ((∀ e t, Drains e → step kstrtol sem s' e ≠ some t) → AllReturn kstrtol sem s')) ∧
    ∃ es' s', Steps (step kstrtol sem) Polite s es' ∧ run (step kstrtol sem) s es' = some s' ∧
      es'.length ≤ onTheWay s ∧ s'.k.files = s.k.files ∧ AllReturn kstrtol sem s' := by
  have h : Still kstrtol sem idle.k.link.drawn s.k.files s := ⟨flow_run hp hr, hy, rfl⟩
  have hlength : ∀ {es' s'}, Steps (step kstrtol sem) (fun _ => Drains) s es' →
      run (step kstrtol sem) s es' = some s' → es'.length ≤ onTheWay s := fun hes hr' => by
    have hle := (Variant.length_le still_decreases h hes hr').2
    omega
  refine ⟨fun es' s' hes hr' => ⟨hlength hes hr', fun hstuck => ?_⟩, ?_⟩
  · have hq := Variant.final_of_stuck still_decreases still_progresses h hes hr' hstuck
    exact (Variant.length_le still_decreases h hes hr').1.allReturn hq
  · obtain ⟨es', s', hes, hr', h', hq⟩ := Variant.exists_final still_decreases still_progresses h
    exact ⟨es', s', polite_of_drains h hes, hr', hlength hes hr', h'.files, h'.allReturn hq⟩

/-- Two clients have opened files. -/
def bothOpen : List Event :=
  opensValue ++ [.client (.openVar 1 ⟨0, .max⟩ true false false true 0), .serve]

/-- Their replies arrive after three steps. -/
theorem bothOpen_drains : ∃ s es' s',
    run (step Kernel.Kstrtol.kstrtol noCbs) (start .probed speedFw) bothOpen = some s ∧
    es'.length ≤ 3 ∧ run (step Kernel.Kstrtol.kstrtol noCbs) s es' = some s' ∧
    AllReturn Kernel.Kstrtol.kstrtol noCbs s' := by
  have hrun : ((run (step Kernel.Kstrtol.kstrtol noCbs) (start .probed speedFw) bothOpen).any fun s =>
      decide (onTheWay s = 3 ∧ Young s.k)) = true := by
    decide +kernel
  obtain ⟨s, hr, hs⟩ := (Option.any_eq_true ..).1 hrun
  obtain ⟨hway, hy⟩ := of_decide_eq_true hs
  have hp : Steps (step Kernel.Kstrtol.kstrtol noCbs) Polite (start .probed speedFw) bothOpen := by
    decide +kernel
  obtain ⟨-, es', s', -, hr', hle, -, hall⟩ := drains hp hr hy
  exact ⟨s, es', s', hr, hway ▸ hle, hr', hall⟩

end

end CfgMgmt.System.Draining
