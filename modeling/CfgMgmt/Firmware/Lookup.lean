import CfgMgmt.Firmware.ConfigRefinement
import CfgMgmt.Lib.Machine

/-!
# The ways to address a variable

The firmware finds a variable by its id or by its name, each function in a search of its own, and the
kernel by its index.  When the ids and the names of a table are distinct and no callbacks are
registered, all of them lead to the same value (`routes_agree`): the last one written to the variable,
limited, by whichever of them it was written.
-/

namespace CfgMgmt.Firmware.Lookup

open CfgMgmt.Lib.Bytes CfgMgmt.Lib.Machine CfgMgmt.Msg CfgMgmt.Firmware.Config
open CfgMgmt.Firmware.RegisterMap CfgMgmt.Firmware.ConfigRefinement

section Functions

variable {n : VarCount} {κ δ : Type} (vars : Table n κ δ)

/-- The first entry whose name compares equal in `strcmp`. -/
def findName (name : CStr) : Option (Fin n.1) :=
  (List.finRange n.1).find? fun k => (vars k).name = name

/-! The output of the functions below is what their pointer points to, `none` for `NULL`. -/

def cfgGetValId (id : Int32) (val : Option Int32) : Int32 × Option Int32 :=
  if val.isNone then
    (0, val)
  else
    match findId vars id with
    | some i => (1, some (vars i).val)
    | none => (0, val)

def cfgGetValName (name : CStr) (val : Option Int32) : Int32 × Option Int32 :=
  if val.isNone then
    (0, val)
  else
    match findName vars name with
    | some i => (1, some (vars i).val)
    | none => (0, val)

def cfgGetName (id : Int32) : Option CStr :=
  (findId vars id).map fun i => (vars i).name

def cfgGetStructId (id : Int32) (v : Option (CfgVar κ δ)) : Int32 × Option (CfgVar κ δ) :=
  if v.isNone then
    (0, v)
  else
    match findId vars id with
    | some i => (1, some (vars i))
    | none => (0, v)

def cfgGetStructName (name : CStr) (v : Option (CfgVar κ δ)) : Int32 × Option (CfgVar κ δ) :=
  if v.isNone then
    (0, v)
  else
    match findName vars name with
    | some i => (1, some (vars i))
    | none => (0, v)

end Functions

/-! ### Tables with distinct ids and names -/

/-- A table in which the ids are distinct, and so are the names, and which has no callbacks. -/
structure PlainTable (n : VarCount) (κ δ : Type) where
  vars : Table n κ δ
  ids : ∀ j k, (vars j).id = (vars k).id → j = k
  names : ∀ j k, (vars j).name = (vars k).name → j = k
  noRdCb : ∀ k, (vars k).rdCb = none
  noWrCb : ∀ k, (vars k).wrCb = none

/-- What happens to the variables: a call of `cfgSetId` by the firmware, or a request of the kernel. -/
inductive Event
  | setId (id val : Int32) (trigCb : Bool)
  | request (req : CfgMsg)

section Runs

variable {n : VarCount} {κ δ ε ω : Type} (sem : CbSem n κ δ ε ω)

def step (s : Cfg n κ δ ε ω) : Event → Option (Cfg n κ δ ε ω)
  | .setId id val trigCb => (cfgSetId sem id val trigCb s.w).map fun r => { s with w := r.2 }
  | .request req => configMsgHandler sem req s

/-- The value that an event writes to the entry `k`: with the id of the entry, or with its index. -/
def written (vars : Table n κ δ) (k : Fin n.1) : Event → Option Int32
  | .setId id val _ => if (vars k).id = id then some val else none
  | .request req => if req.type = reqWr ∧ req.ind.toInt = (k : ℕ) then some req.val else none

/-- The value that the entry `k` has after the events `es`: the last one written to it, limited, or its
initial value. -/
def lastVal (vars : Table n κ δ) (k : Fin n.1) (es : List Event) : Int32 :=
  match (es.filterMap (written vars k)).getLast? with
  | some val => Int32.ofInt (limitTo (vars k).min.toInt (vars k).max.toInt val.toInt)
  | none => (vars k).val

def tableAfter (vars : Table n κ δ) (es : List Event) : Table n κ δ :=
  fun k => { vars k with val := lastVal vars k es }

/-! ### One step -/

lemma lastVal_written {vars : Table n κ δ} {k : Fin n.1} {es : List Event} {e : Event} {val : Int32}
    (h : written vars k e = some val) : lastVal vars k (es ++ [e]) = limit (vars k) val := by
  unfold lastVal
  rw [List.filterMap_append, List.filterMap_cons_some h, List.filterMap_nil, List.getLast?_concat,
    limit_eq_limitTo]

lemma lastVal_of_none {vars : Table n κ δ} {k : Fin n.1} {es : List Event} {e : Event}
    (h : written vars k e = none) : lastVal vars k (es ++ [e]) = lastVal vars k es := by
  unfold lastVal
  rw [List.filterMap_append, List.filterMap_cons_none h, List.filterMap_nil, List.append_nil]

/-- To store a limited value in the entry that an event addresses is what the event does to the
table. -/
lemma update_tableAfter {vars : Table n κ δ} {es : List Event} {e : Event} {k : Fin n.1}
    {val : Int32} (hk : written vars k e = some val) (hne : ∀ j, j ≠ k → written vars j e = none) :
    Function.update (tableAfter vars es) k
      { tableAfter vars es k with val := limit (tableAfter vars es k) val } =
        tableAfter vars (es ++ [e]) := by
  funext j
  by_cases hj : j = k
  · subst hj
    rw [Function.update_self]
    simp only [tableAfter, lastVal_written hk]
    rfl
  · rw [Function.update_of_ne hj]
    simp only [tableAfter, lastVal_of_none (hne j hj)]

lemma tableAfter_of_none {vars : Table n κ δ} {es : List Event} {e : Event}
    (h : ∀ j, written vars j e = none) : tableAfter vars (es ++ [e]) = tableAfter vars es := by
  funext j
  simp only [tableAfter, lastVal_of_none (h j)]

section Searches

variable {vars : Table n κ δ} {k : Fin n.1} {id : Int32} {name : CStr}

/-- A search finds the only entry with the property it looks for. -/
lemma find?_finRange {p : Fin n.1 → Bool} (hk : p k = true) (h : ∀ j, p j = true → j = k) :
    (List.finRange n.1).find? p = some k := by
  cases hf : (List.finRange n.1).find? p with
  | none => exact absurd hk (List.find?_eq_none.1 hf k (List.mem_finRange k))
  | some j => rw [h j (List.find?_some hf)]

lemma findId_self (h : ∀ i j, (vars i).id = (vars j).id → i = j) (hk : (vars k).id = id) :
    findId vars id = some k :=
  find?_finRange (by simpa using hk) fun j hj => h j k ((of_decide_eq_true hj).trans hk.symm)

lemma findName_self (h : ∀ i j, (vars i).name = (vars j).name → i = j) (hk : (vars k).name = name) :
    findName vars name = some k :=
  find?_finRange (by simpa using hk) fun j hj => h j k ((of_decide_eq_true hj).trans hk.symm)

lemma findId_eq_none (h : ∀ k, (vars k).id ≠ id) : findId vars id = none :=
  List.find?_eq_none.2 fun k _ => by simpa using h k

lemma findName_eq_none (h : ∀ k, (vars k).name ≠ name) : findName vars name = none :=
  List.find?_eq_none.2 fun k _ => by simpa using h k

end Searches

section Step

variable {sem} {t : PlainTable n κ δ} {es : List Event} {s : Cfg n κ δ ε ω}
  (h : s.w.vars = tableAfter t.vars es)
include h

lemma wrCb_eq_none (k : Fin n.1) : (s.w.vars k).wrCb = none := by
  rw [h]
  exact t.noWrCb k

lemma setId_tableAfter (id val : Int32) (trigCb : Bool) :
    ∃ s', step sem s (.setId id val trigCb) = some s' ∧
      s'.w.vars = tableAfter t.vars (es ++ [.setId id val trigCb]) := by
  unfold step cfgSetId
  by_cases hid : ∃ k, (t.vars k).id = id
  · obtain ⟨k, hk⟩ := hid
    have hfind : findId s.w.vars id = some k := by
      rw [h]
      exact findId_self t.ids hk
    have hcb : (if trigCb then callCb sem (s.w.vars k).wrCb k false (s.w.vars k).wrCbData
        (setVal k (limit (s.w.vars k) val) s.w) else setVal k (limit (s.w.vars k) val) s.w) =
          setVal k (limit (s.w.vars k) val) s.w := by
      rw [wrCb_eq_none h k]
      cases trigCb <;> rfl
    simp only [hfind, cfgSetInd_entry sem (entry?_ofNat k), hcb, Option.map_some]
    refine ⟨_, rfl, ?_⟩
    simp only [setVal, h]
    refine update_tableAfter (if_pos hk) fun j hj => if_neg fun e => ?_
    exact hj (t.ids j k (e.trans hk.symm))
  · have hno : ∀ k, (t.vars k).id ≠ id := not_exists.1 hid
    have hfind : findId s.w.vars id = none := by
      rw [h]
      exact findId_eq_none hno
    simp only [hfind, Option.map_some]
    refine ⟨_, rfl, ?_⟩
    have hnone : ∀ j, written t.vars j (.setId id val trigCb) = none := fun j => if_neg (hno j)
    rw [tableAfter_of_none hnone]
    exact h

lemma callCb_rdCb (k : Fin n.1) :
    callCb sem (s.w.vars k).rdCb k true (s.w.vars k).rdCbData s.w = s.w := by
  rw [h]
  simp only [tableAfter, t.noRdCb k]
  rfl

lemma request_tableAfter (req : CfgMsg) :
    ∃ s', step sem s (.request req) = some s' ∧
      s'.w.vars = tableAfter t.vars (es ++ [.request req]) := by
  obtain ⟨rep, he, -, -, -⟩ := configMsgHandler_serves sem req s
  refine ⟨_, he, ?_⟩
  cases hq : query n req with
  | write k v =>
    obtain ⟨ht, hk, rfl⟩ := query_eq_write hq
    rw [serve_write, wrCb_eq_none h k]
    simp only [send, callCb, setVal, h]
    refine update_tableAfter (if_pos ⟨ht, entry?_eq_some.1 hk⟩) fun j hj => if_neg fun e => ?_
    exact hj (Option.some.inj ((entry?_eq_some.2 e.2).symm.trans hk))
  | read k =>
    obtain ⟨ht, -⟩ := query_eq_read hq
    have hno : ∀ j, written t.vars j (.request req) = none := fun j =>
      if_neg fun e => absurd (ht.symm.trans e.1) (by decide)
    simp only [send, RegMap.serve, regMap, callCb_rdCb h k, tableAfter_of_none hno]
    exact h
  | _ =>
    have hno : ∀ j, written t.vars j (.request req) = none := fun j =>
      if_neg fun e => by
        rw [query_of_write e.1 (entry?_eq_some.2 e.2)] at hq
        cases hq
    rw [tableAfter_of_none hno]
    exact h

end Step

/-! ### Every run -/

def start (t : PlainTable n κ δ) (ext : ε) (txBuf : CfgMsg) : Cfg n κ δ ε ω :=
  ⟨⟨t.vars, ext, []⟩, txBuf⟩

lemma run_tableAfter (t : PlainTable n κ δ) (ext : ε) (txBuf : CfgMsg) (es : List Event) :
    ∃ s, run (step sem) (start t ext txBuf) es = some s ∧ s.w.vars = tableAfter t.vars es := by
  induction es using List.reverseRecOn with
  | nil => exact ⟨_, rfl, rfl⟩
  | append_singleton es e ih =>
    obtain ⟨s, hs, h⟩ := ih
    have hstep : ∃ s', step sem s e = some s' ∧ s'.w.vars = tableAfter t.vars (es ++ [e]) := by
      cases e with
      | setId id val trigCb => exact setId_tableAfter h id val trigCb
      | request req => exact request_tableAfter h req
    obtain ⟨s', hs', h'⟩ := hstep
    exact ⟨s', run_concat_eq_some.2 ⟨s, hs, hs'⟩, h'⟩

/-- What the ways to read the entry `k` of the table `vars` yield in the state `s`, when the value of the
entry is `val`. -/
structure Reads (vars : Table n κ δ) (s : Cfg n κ δ ε ω) (k : Fin n.1) (val : Int32) : Prop where
  valId : ∀ x, cfgGetValId s.w.vars (vars k).id (some x) = (1, some val)
  valName : ∀ x, cfgGetValName s.w.vars (vars k).name (some x) = (1, some val)
  structId : ∀ x, cfgGetStructId s.w.vars (vars k).id (some x) = (1, some { vars k with val })
  structName : ∀ x, cfgGetStructName s.w.vars (vars k).name (some x) = (1, some { vars k with val })
  name : cfgGetName s.w.vars (vars k).id = some (vars k).name
  /-- the reply to a read request for its index -/
  reply : ∀ req : CfgMsg, req.type = reqRd → req.ind.toInt = (k : ℕ) →
    ∃ rep, configMsgHandler sem req s = some (send rep s.w) ∧ rep.seq = req.seq ∧ rep.ind = req.ind ∧
      rep.type = resRdVal ∧ rep.val = val

/-- What a lookup by an id or a name does that no entry of the table `vars` has. -/
structure Misses (vars vars' : Table n κ δ) : Prop where
  valId : ∀ id, (∀ k, (vars k).id ≠ id) → ∀ x, cfgGetValId vars' id x = (0, x)
  valName : ∀ name, (∀ k, (vars k).name ≠ name) → ∀ x, cfgGetValName vars' name x = (0, x)
  structId : ∀ id, (∀ k, (vars k).id ≠ id) → ∀ x, cfgGetStructId vars' id x = (0, x)
  structName : ∀ name, (∀ k, (vars k).name ≠ name) → ∀ x, cfgGetStructName vars' name x = (0, x)
  name : ∀ id, (∀ k, (vars k).id ≠ id) → cfgGetName vars' id = none

variable {sem} {t : PlainTable n κ δ} {es : List Event} {s : Cfg n κ δ ε ω}

lemma reads_tableAfter (h : s.w.vars = tableAfter t.vars es) (k : Fin n.1) :
    Reads sem t.vars s k (lastVal t.vars k es) := by
  have hid : findId s.w.vars (t.vars k).id = some k := by
    rw [h]
    exact findId_self t.ids rfl
  have hname : findName s.w.vars (t.vars k).name = some k := by
    rw [h]
    exact findName_self t.names rfl
  have hk : s.w.vars k = { t.vars k with val := lastVal t.vars k es } := congrFun h k
  constructor
  · intro x
    simp [cfgGetValId, hid, hk]
  · intro x
    simp [cfgGetValName, hname, hk]
  · intro x
    simp [cfgGetStructId, hid, hk]
  · intro x
    simp [cfgGetStructName, hname, hk]
  · simp [cfgGetName, hid, hk]
  · intro req ht hind
    obtain ⟨rep, he, hseq, hi, hc⟩ := configMsgHandler_serves sem req s
    rw [query_of_read ht (entry?_eq_some.2 hind)] at he hc
    simp only [RegMap.serve, regMap, callCb_rdCb h k] at he hc
    refine ⟨rep, he, hseq, hi, hc.1, ?_⟩
    rw [Int32.toInt_inj.1 hc.2.1, hk]

lemma misses_tableAfter (h : s.w.vars = tableAfter t.vars es) : Misses t.vars s.w.vars := by
  rw [h]
  have hnoId : ∀ {id}, (∀ k, (t.vars k).id ≠ id) → findId (tableAfter t.vars es) id = none :=
    fun hid => findId_eq_none hid
  have hnoName : ∀ {name}, (∀ k, (t.vars k).name ≠ name) →
      findName (tableAfter t.vars es) name = none := fun hname => findName_eq_none hname
  constructor
  · intro id hid x
    simp [cfgGetValId, hnoId hid]
  · intro name hname x
    simp [cfgGetValName, hnoName hname]
  · intro id hid x
    simp [cfgGetStructId, hnoId hid]
  · intro name hname x
    simp [cfgGetStructName, hnoName hname]
  · intro id hid
    simp [cfgGetName, hnoId hid]

end Runs

/-- **The ways to address a variable agree.**  After every sequence of writes by id or by index, each of
them yields the last value written to the variable, limited; a lookup that fails leaves its output
unchanged. -/
theorem routes_agree {n : VarCount} {κ δ ε ω : Type} (sem : CbSem n κ δ ε ω) (t : PlainTable n κ δ)
    (ext : ε) (txBuf : CfgMsg) (es : List Event) :
    ∃ s, run (step sem) (start t ext txBuf) es = some s ∧
      (∀ k, Reads sem t.vars s k (lastVal t.vars k es)) ∧ Misses t.vars s.w.vars := by
  obtain ⟨s, hs, h⟩ := run_tableAfter sem t ext txBuf es
  exact ⟨s, hs, reads_tableAfter h, misses_tableAfter h⟩

end CfgMgmt.Firmware.Lookup
