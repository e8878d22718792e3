import CfgMgmt.Kernel.Calls

/-!
# The files that `debugfs_open_ll` creates

The effect of `alloc_mem`, of the directories, and of one round of the loop, when all allocations
succeed: for every kind there is an array of records and a directory, and the variable gets a file in
every directory, which points to its record.
-/

namespace CfgMgmt.Kernel.Listing

open CfgMgmt.Lib.Bytes CfgMgmt.Msg CfgMgmt.Kernel.Linux CfgMgmt.Kernel.RpmsgLink CfgMgmt.Kernel.Files

variable {k : Driver} {mem : Kind → Bool} {a : Kind → ℕ}

/-! ### Arrays and directories -/

/-- The place of a kind among all of them. -/
def pos : Kind → ℕ
  | .val => 0
  | .min => 1
  | .max => 2
  | .desc => 3

lemma pos_lt (kind : Kind) : pos kind < 4 := by
  cases kind <;> decide

lemma pos_injective : Function.Injective pos := by
  intro x y h
  cases x <;> cases y <;> first | rfl | cases h

/-- The state with four new arrays. -/
def allocated (k : Driver) : Driver :=
  { k with accessArray := fun kind => some (k.arrays + pos kind), arrays := k.arrays + 4 }

lemma allocMem_all (hm : ∀ kind, mem kind = true) :
    k.allocMem mem Kind.all = (0, allocated k) := by
  unfold Kind.all allocated
  simp only [Driver.allocMem, hm, if_true, Prod.mk.injEq, true_and]
  congr 1
  funext kind
  cases kind <;> simp [pos, Function.update]

lemma createDirs_empty (hm : ∀ kind, mem kind = true) (hd : k.dirs = []) : k.createDirs mem Kind.all =
    (none, { k with dirP := some, dirs := [.desc, .max, .min, .val] }) := by
  unfold Kind.all
  simp only [Driver.createDirs, hm, hd]
  simp only [List.not_mem_nil, List.mem_cons, not_false_eq_true, reduceCtorEq, or_self, and_self,
    if_true, Prod.mk.injEq, true_and]
  congr 1
  funext kind
  cases kind <;> simp [Function.update]

lemma createDirs_exists (hd : Kind.val ∈ k.dirs) : k.createDirs mem Kind.all =
    (some .val, { k with dirP := Function.update k.dirP .val none }) := by
  unfold Kind.all Driver.createDirs
  rw [if_neg fun h => h.2 hd]

/-! ### One round of the loop -/

lemma foldlM_setRecord (ha : Function.Injective a) (i : ℕ) :
    ∀ {kinds : List Kind} {k : Driver}, (∀ kind, k.accessArray kind = some (a kind)) → kinds.Nodup →
      ∃ r, kinds.foldlM (Driver.setRecord i) k = some { k with records := r } ∧
        (∀ kind ∈ kinds, r (a kind) i = ⟨Int32.ofNat i, kind.access⟩) ∧
        (∀ b, (∀ kind ∈ kinds, b ≠ a kind) → r b i = k.records b i) ∧
        ∀ b j, j ≠ i → r b j = k.records b j := by
  intro kinds
  induction kinds with
  | nil => exact fun {k} _ _ => ⟨k.records, rfl, nofun, fun _ _ => rfl, fun _ _ _ => rfl⟩
  | cons kind kinds ih =>
    intro k hacc hn
    obtain ⟨hnot, hn⟩ := List.nodup_cons.1 hn
    generalize hk : { k with
      records := Function.update k.records (a kind)
        (Function.update (k.records (a kind)) i ⟨Int32.ofNat i, kind.access⟩) } = k₁
    have hset : k.setRecord i kind = some k₁ := by
      unfold Driver.setRecord
      rw [hacc kind, ← hk]
      rfl
    have hacc₁ : ∀ kind', k₁.accessArray kind' = some (a kind') := by
      rw [← hk]
      exact hacc
    obtain ⟨r, hr, hself, hother, hrest⟩ := ih hacc₁ hn
    refine ⟨r, ?_, ?_, ?_, ?_⟩
    · rw [List.foldlM_cons, hset]
      refine Eq.trans hr ?_
      rw [← hk]
    · intro kind' hk'
      rcases List.mem_cons.1 hk' with rfl | hk'
      · rw [hother (a kind') fun x hx e => hnot (ha e ▸ hx), ← hk]
        simp
      · exact hself kind' hk'
    · intro b hb
      rw [hother b fun x hx => hb x (List.mem_cons_of_mem _ hx), ← hk]
      dsimp only
      rw [Function.update_of_ne (hb kind List.mem_cons_self)]
    · intro b j hj
      rw [hrest b j hj, ← hk]
      dsimp only
      by_cases hb : b = a kind
      · rw [hb, Function.update_self, Function.update_of_ne hj]
      · rw [Function.update_of_ne hb]

/-- The file of the variable `i` in the directory of a kind. -/
def fileOf (name : List UInt8) (a : Kind → ℕ) (i : ℕ) (kind : Kind) : DebugfsFile :=
  ⟨name, some kind, (a kind, i)⟩

lemma foldlM_createFile {name : List UInt8} (i : ℕ) (hm : ∀ kind, mem kind = true) :
    ∀ {kinds : List Kind} {k : Driver}, (∀ kind, k.accessArray kind = some (a kind)) →
      (∀ kind, k.dirP kind = some kind) → kinds.Nodup →
      (∀ kind ∈ kinds, ∀ x ∈ k.debugfs, ¬ (x.name = name ∧ x.parent = some kind)) →
      kinds.foldlM (Driver.createFile name i mem) k =
        some { k with debugfs := (kinds.map (fileOf name a i)).reverse ++ k.debugfs } := by
  intro kinds
  induction kinds with
  | nil => exact fun _ _ _ _ => rfl
  | cons kind kinds ih =>
    intro k hacc hdir hn hnew
    obtain ⟨hnot, hn⟩ := List.nodup_cons.1 hn
    have hcreate : k.createFile name i mem kind =
        some { k with debugfs := fileOf name a i kind :: k.debugfs } := by
      unfold Driver.createFile
      rw [hacc kind, hdir kind]
      exact if_pos ⟨hm kind, hnew kind List.mem_cons_self⟩
    have hrest := ih (k := { k with debugfs := fileOf name a i kind :: k.debugfs }) hacc hdir hn ?_
    · rw [List.foldlM_cons, hcreate]
      refine Eq.trans hrest ?_
      simp
    · intro kind' hk' x hx
      rcases List.mem_cons.1 hx with rfl | hx
      · rintro ⟨-, hp⟩
        have e : kind = kind' := Option.some.inj hp
        exact hnot (e ▸ hk')
      · exact hnew kind' (List.mem_cons_of_mem _ hk') x hx

/-- The files of the first `i` variables, the last one first. -/
def listing (names : List (List UInt8)) (a : Kind → ℕ) : ℕ → List DebugfsFile
  | 0 => []
  | i + 1 => (Kind.all.map (fileOf (names.getD i []) a i)).reverse ++ listing names a i

variable {names : List (List UInt8)} {x : DebugfsFile} {i : ℕ}

lemma mem_listing : x ∈ listing names a i ↔ ∃ j < i, ∃ kind, x = fileOf (names.getD j []) a j kind := by
  induction i with
  | zero => simp [listing]
  | succ i ih =>
    rw [listing, List.mem_append, List.mem_reverse, List.mem_map, ih]
    constructor
    · rintro (⟨kind, -, rfl⟩ | ⟨j, hj, kind, rfl⟩)
      · exact ⟨i, Nat.lt_succ_self i, kind, rfl⟩
      · exact ⟨j, Nat.lt_succ_of_lt hj, kind, rfl⟩
    · rintro ⟨j, hj, kind, rfl⟩
      rcases Nat.lt_succ_iff_lt_or_eq.1 hj with hlt | rfl
      · exact .inr ⟨j, hlt, kind, rfl⟩
      · refine .inl ⟨kind, ?_, rfl⟩
        cases kind <;> decide

lemma listing_new (hd : names.Nodup) (hi : i < names.length) (kind : Kind) :
    ∀ x ∈ listing names a i, ¬ (x.name = names.getD i [] ∧ x.parent = some kind) := by
  rintro x hx ⟨hname, -⟩
  obtain ⟨j, hj, kind', rfl⟩ := mem_listing.1 hx
  have hj' : j < names.length := hj.trans hi
  have e : names[j] = names[i] := by
    have hname : names.getD j [] = names.getD i [] := hname
    rwa [← List.getElem_eq_getD, ← List.getElem_eq_getD] at hname
  exact hj.ne ((List.Nodup.getElem_inj_iff hd).1 e)

/-- In the directory of a kind there is one file for each variable. -/
lemma filter_listing (names : List (List UInt8)) (a : Kind → ℕ) (kind : Kind) (i : ℕ) :
    ((listing names a i).filter fun x => x.parent = some kind).reverse =
      (List.range i).map fun j => fileOf (names.getD j []) a j kind := by
  induction i with
  | zero => rfl
  | succ i ih =>
    rw [listing, List.filter_append, List.reverse_append, ih, List.range_succ, List.map_append]
    congr 1
    cases kind <;> rfl

end CfgMgmt.Kernel.Listing
